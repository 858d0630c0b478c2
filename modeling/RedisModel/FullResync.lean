/-
Slaves that load an RDB file of the master and execute what follows on the link.

* `execute`, `executed` — what a slave does with the commands it reads;
* `Framed` — the bytes for a slave are some commands, each in its database;
* `Inv`, `inv_step` — what every event keeps;
* `slaves_follow` — what a slave has executed, the master has executed before.
-/
import RedisModel.CountersSpec
import RedisModel.ReplicationServer
import RedisModel.Runs

open StringNumber RedisCommands Multibulk

namespace Replication

/-! ### The commands that a slave executes -/

/-- Command names are compared without case. -/
def isCommand (name : String) (argv : Argv) : Bool :=
  argv.head?.any fun arg => strcasecmp arg (ascii name.toList)

/-- A command that is propagated. -/
def IsWrite (argv : Argv) : Prop :=
  ¬ isCommand "SELECT" argv ∧ ¬ isCommand "PING" argv ∧ ¬ isCommand "REPLCONF" argv

section
variable (dbnum : ℕ)

/-- The database that `selectCommand` selects, if there is no error. -/
def selectedDb : Argv → Option ℕ
  | [_, id] =>
    (RedisCommands.getLongLongFromObject id).bind fun n =>
      if 0 ≤ n ∧ n < dbnum then some n.toNat else none
  | _ => none

/-- One command: SELECT changes the database, PING and REPLCONF do nothing, and others are executed
in the database that is selected. -/
def execute (x : ℕ × Commands) (argv : Argv) : ℕ × Commands :=
  if isCommand "SELECT" argv then ((selectedDb dbnum argv).getD x.1, x.2)
  else if isCommand "PING" argv ∨ isCommand "REPLCONF" argv then x
  else (x.1, x.2 ++ [(x.1, argv)])

/-- A slave begins in the database 0. -/
def executed (argvs : List Argv) : ℕ × Commands := argvs.foldl (execute dbnum) (0, [])

variable {dbnum}

theorem executed_concat (argvs : List Argv) (argv : Argv) :
    executed dbnum (argvs ++ [argv]) = execute dbnum (executed dbnum argvs) argv := by
  rw [executed, List.foldl_append]
  rfl

theorem execute_extends (x : ℕ × Commands) (argv : Argv) : x.2 <+: (execute dbnum x argv).2 := by
  rw [execute]
  split
  · exact List.prefix_rfl
  · split
    · exact List.prefix_rfl
    · exact List.prefix_append _ _

theorem executed_extends {a b : List Argv} (h : a <+: b) :
    (executed dbnum a).2 <+: (executed dbnum b).2 := by
  obtain ⟨rest, rfl⟩ := h
  rw [executed, executed, List.foldl_append]
  generalize a.foldl (execute dbnum) (0, []) = x
  induction rest generalizing x with
  | nil => exact List.prefix_rfl
  | cons argv rest ih => exact (execute_extends x argv).trans (ih _)

theorem execute_write {argv : Argv} (h : IsWrite argv) (x : ℕ × Commands) :
    execute dbnum x argv = (x.1, x.2 ++ [(x.1, argv)]) := by
  rw [execute, if_neg h.1, if_neg fun hor => hor.elim h.2.1 h.2.2]

theorem execute_service (getack : Bool) (x : ℕ × Commands) :
    execute dbnum x (serviceCommand getack) = x := by
  have hselect : ¬ isCommand "SELECT" (serviceCommand getack) := by
    cases getack <;> decide
  have hservice : isCommand "PING" (serviceCommand getack) ∨
      isCommand "REPLCONF" (serviceCommand getack) := by
    cases getack <;> decide
  rw [execute, if_neg hselect, if_pos hservice]

theorem execute_select {db : ℕ} (hdb : db < dbnum) (hdbnum : dbnum < 2 ^ 31) (x : ℕ × Commands) :
    execute dbnum x (selectCommand db) = (db, x.2) := by
  have hlong : IsLong (db : ℤ) := ⟨by omega, by omega⟩
  have hid : RedisCommands.getLongLongFromObject (ll2string db) = some (db : ℤ) :=
    (Counters.getLongLongFromObject_text (.int db hlong)).symm
  have hselected : selectedDb dbnum (selectCommand db) = some db := by
    rw [selectCommand, selectedDb, hid, Option.bind_some, if_pos (by omega), Int.toNat_natCast]
  have hname : isCommand "SELECT" (selectCommand db) := by
    rw [selectCommand, isCommand, List.head?_cons, Option.any_some]
    decide
  rw [execute, if_pos hname, hselected]
  rfl

/-! ### The bytes for a slave -/

variable (dbnum)

/-- A text of commands: executed by a slave they are `later`, and the database is then the
selected one, if there is one. -/
def Framed (sel : Option ℕ) (later : Commands) (text : Bytes) : Prop :=
  ∃ argvs, text = encode argvs ∧ (executed dbnum argvs).2 = later ∧
    ∀ db, sel = some db → (executed dbnum argvs).1 = db

/-- The text holds what was executed since an RDB file. -/
def Told (s : Server) (rdb : Commands) (text : Bytes) : Prop :=
  ∃ later, s.history = rdb ++ later ∧ Framed dbnum s.slaveseldb later text

/-- The RDB file of a slave: the one it waits for, or the one it was sent.  A slave of a partial
resynchronization has none. -/
def rdbOf (child : Option Commands) (history : Commands) (slave : Slave) : Option Commands :=
  match slave.replstate with
  | .waitBgsaveStart => some history
  | .waitBgsaveEnd => child
  | .sendBulk | .online => slave.rdb

/-- All slaves were told what happened since their RDB files. -/
def AllTold (child : Option Commands) (s : Server) : Prop :=
  ∀ c ∈ s.slaves, ∀ rdb, rdbOf child s.history (s.client c) = some rdb →
    Told dbnum s rdb ((s.client c).sent ++ (s.client c).buf)

/-- A slave waits for a BGSAVE. -/
def Waits (slave : Slave) : Prop :=
  slave.replstate = .waitBgsaveStart ∨ slave.replstate = .waitBgsaveEnd

/-- The invariant of a master. -/
structure Inv (s : Server) : Prop where
  stream : s.stream.Ok
  backlog : s.slaves ≠ [] → s.stream.replBacklog ≠ none
  waiting : ∀ c ∈ s.slaves, Waits (s.client c) → s.rdbChild ≠ none ∧ (s.client c).sent = []
  told : AllTold dbnum s.rdbChild s

variable {dbnum} {s : Server} {sel sel' : Option ℕ} {later more : Commands} {text : Bytes}

theorem not_waits {slave : Slave}
    (h : slave.replstate = .sendBulk ∨ slave.replstate = .online) : ¬ Waits slave := by
  rw [Waits]
  obtain h | h := h <;> rw [h] <;> decide

theorem Framed.nil : Framed dbnum none [] [] := ⟨[], rfl, rfl, fun _ h => by cases h⟩

theorem Framed.reset (h : Framed dbnum sel later text) : Framed dbnum none later text := by
  obtain ⟨argvs, htext, hlater, -⟩ := h
  exact ⟨argvs, htext, hlater, fun _ h => by cases h⟩

theorem Framed.concat (h : Framed dbnum sel later text) {argv : Argv}
    (hexec : ∀ x : ℕ × Commands, (∀ db, sel = some db → x.1 = db) →
      (execute dbnum x argv).2 = x.2 ++ more ∧
        ∀ db, sel' = some db → (execute dbnum x argv).1 = db) :
    Framed dbnum sel' (later ++ more) (text ++ encodeCommand argv) := by
  obtain ⟨argvs, rfl, rfl, hsel⟩ := h
  obtain ⟨hmore, hsel'⟩ := hexec _ hsel
  refine ⟨argvs ++ [argv], ?_, ?_, ?_⟩
  · rw [encode_append, encode_cons, encode_nil, List.append_nil]
  · rw [executed_concat, hmore]
  · rwa [executed_concat]

theorem Told.self (h : Told dbnum s s.history text) : Framed dbnum s.slaveseldb [] text := by
  obtain ⟨later, hlater, hframed⟩ := h
  obtain rfl : later = [] := List.self_eq_append_right.mp hlater
  exact hframed

theorem inv_of_no_slaves (hstream : s.stream.Ok) (h : s.slaves = []) : Inv dbnum s where
  stream := hstream
  backlog hne := absurd h hne
  waiting c hc := by
    rw [h] at hc
    cases hc
  told c hc := by
    rw [h] at hc
    cases hc

/-! ### Commands -/

theorem Inv.backlog_of_fed (h : Inv dbnum s)
    (hnot : ¬ (s.stream.replBacklog = none ∧ s.slaves = [])) : s.stream.replBacklog ≠ none := by
  intro hnone
  by_cases hnil : s.slaves = []
  · exact hnot ⟨hnone, hnil⟩
  · exact h.backlog hnil hnone

theorem inv_feedCommand (h : Inv dbnum s) (hsome : s.stream.replBacklog ≠ none)
    {states : ReplState → Bool} {argv : Argv}
    (hstates : ∀ state, state ≠ .waitBgsaveStart → states state)
    (hstart : if states .waitBgsaveStart then more = [] else sel' = s.slaveseldb)
    (hexec : ∀ x : ℕ × Commands, (∀ db, s.slaveseldb = some db → x.1 = db) →
      (execute dbnum x argv).2 = x.2 ++ more ∧
        ∀ db, sel' = some db → (execute dbnum x argv).1 = db) :
    ∃ s', feedCommand s states argv = some s' ∧ s'.history = s.history ∧
      s'.slaveseldb = s.slaveseldb ∧ s'.stream.replBacklog ≠ none ∧
      ∀ history, history = s.history ++ more →
        Inv dbnum { s' with slaveseldb := sel', history := history } := by
  obtain ⟨stream, hfeed, hok, hsome'⟩ := h.stream.feed hsome (encodeCommand argv)
  refine ⟨{ addReplySlaves s states (encodeCommand argv) with stream := stream },
    by rw [feedCommand, hfeed]; rfl, rfl, rfl, hsome', ?_⟩
  rintro _ rfl
  refine ⟨hok, fun _ => hsome', fun c hc hwaits => ?_, fun c hc rdb hrdb => ?_⟩
  · dsimp only [addReplySlaves] at hwaits ⊢
    split at hwaits
    · rename_i hfed
      rw [if_pos hfed]
      exact h.waiting c hc hwaits
    · rename_i hnot
      rw [if_neg hnot]
      exact h.waiting c hc hwaits
  · dsimp only [addReplySlaves] at hc hrdb ⊢
    by_cases hfed : states (s.client c).replstate
    · rw [if_pos ⟨hc, hfed⟩] at hrdb ⊢
      rw [← List.append_assoc]
      by_cases hwaits : (s.client c).replstate = .waitBgsaveStart
      · rw [hwaits] at hfed
        rw [if_pos hfed] at hstart
        subst hstart
        rw [List.append_nil] at hrdb ⊢
        obtain ⟨later, hlater, hframed⟩ := h.told c hc rdb hrdb
        exact ⟨later ++ [], by rwa [List.append_nil], hframed.concat hexec⟩
      · have hold : rdbOf s.rdbChild s.history (s.client c) = some rdb := by
          rw [← hrdb]
          cases hstate : (s.client c).replstate with
          | waitBgsaveStart => exact absurd hstate hwaits
          | waitBgsaveEnd | sendBulk | online => simp only [rdbOf, hstate]
        obtain ⟨later, hlater, hframed⟩ := h.told c hc rdb hold
        exact ⟨later ++ more, by rw [hlater, List.append_assoc], hframed.concat hexec⟩
    · rw [if_neg fun hand => hfed hand.2] at hrdb ⊢
      have hwaits : (s.client c).replstate = .waitBgsaveStart :=
        by_contra fun hne => hfed (hstates _ hne)
      rw [hwaits] at hfed
      rw [if_neg hfed] at hstart
      have hself := (h.told c hc s.history (by rw [rdbOf, hwaits])).self
      rw [rdbOf, hwaits, Option.some_inj] at hrdb
      exact ⟨[], by rw [← hrdb, List.append_nil], hstart ▸ hself⟩

theorem inv_feedSelect (h : Inv dbnum s) (hsome : s.stream.replBacklog ≠ none) {db : ℕ}
    (hdb : db < dbnum) (hdbnum : dbnum < 2 ^ 31) :
    ∃ s', feedSelect s (some db) = some s' ∧ Inv dbnum s' ∧ s'.slaveseldb = some db ∧
      s'.stream.replBacklog ≠ none ∧ s'.history = s.history := by
  rw [feedSelect]
  split
  · rename_i hsel
    exact ⟨s, rfl, h, hsel, hsome, rfl⟩
  · have hexec (x : ℕ × Commands) (_ : ∀ d, s.slaveseldb = some d → x.1 = d) :
        (execute dbnum x (selectCommand db)).2 = x.2 ++ [] ∧
          ∀ d, some db = some d → (execute dbnum x (selectCommand db)).1 = d := by
      rw [execute_select hdb hdbnum]
      exact ⟨(List.append_nil _).symm, fun _ h => Option.some_inj.mp h⟩
    obtain ⟨s', hfeed, hhistory, -, hsome', hinv⟩ :=
      inv_feedCommand h hsome (fun _ _ => rfl) rfl hexec
    refine ⟨{ s' with slaveseldb := some db }, by rw [hfeed]; rfl, ?_, rfl, hsome', hhistory⟩
    exact hinv s'.history (by rw [hhistory, List.append_nil])

theorem inv_write (h : Inv dbnum s) {db : ℕ} (hdb : db < dbnum) (hdbnum : dbnum < 2 ^ 31)
    {argv : Argv} (hargv : IsWrite argv) :
    ∃ s', step s (.write db argv) = some s' ∧ Inv dbnum s' := by
  rw [step, replicationFeedSlaves]
  split
  · rename_i hnone
    exact ⟨_, rfl, inv_of_no_slaves h.stream hnone.2⟩
  · rename_i hnot
    have hsome := h.backlog_of_fed hnot
    rw [if_neg fun hand => hsome hand.2]
    obtain ⟨s', hselect, hinv, hsel, hsome', hhistory⟩ := inv_feedSelect h hsome hdb hdbnum
    obtain ⟨s'', hfeed, hhistory', hsel', -, hinv'⟩ := inv_feedCommand hinv hsome'
      (fun _ hne => decide_eq_true hne) rfl fun x hx => by
        rw [execute_write hargv, hx db hsel]
        exact ⟨rfl, fun d hd => Option.some_inj.mp (hsel.symm.trans hd)⟩
    rw [hselect, Option.bind_some, hfeed]
    refine ⟨_, rfl, ?_⟩
    have hlast := hinv' _ rfl
    rw [← hhistory', ← hsel'] at hlast
    exact hlast

theorem inv_service (h : Inv dbnum s) (getack : Bool) :
    ∃ s', step s (.service getack) = some s' ∧ Inv dbnum s' := by
  rw [step, replicationFeedSlaves]
  split
  · exact ⟨_, rfl, h⟩
  · rename_i hnot
    have hsome := h.backlog_of_fed hnot
    rw [if_neg fun hand => hsome hand.2]
    obtain ⟨s', hfeed, hhistory, hsel, -, hinv⟩ := inv_feedCommand h hsome
      (fun _ hne => decide_eq_true hne) rfl fun x hx => by
        rw [execute_service]
        exact ⟨(List.append_nil _).symm, hx⟩
    refine ⟨s', hfeed, ?_⟩
    have hlast := hinv s'.history (by rw [hhistory, List.append_nil])
    rw [← hsel] at hlast
    exact hlast

/-! ### Slaves that come and go -/

theorem inv_addSlave (h : Inv dbnum s) {c : ClientId} (hc : c ∉ s.slaves) {slave : Slave}
    {stream : Stream} (hok : stream.Ok) (hsome : stream.replBacklog ≠ none)
    (hsel : sel = none ∨ sel = s.slaveseldb)
    (hwaits : Waits slave → s.rdbChild ≠ none ∧ slave.sent = [])
    (hnew : ∀ rdb, rdbOf s.rdbChild s.history slave = some rdb →
      Told dbnum { s with slaveseldb := sel } rdb (slave.sent ++ slave.buf)) :
    Inv dbnum { addSlave s c slave with stream := stream, slaveseldb := sel } where
  stream := hok
  backlog _ := hsome
  waiting d hd := by
    dsimp only [addSlave] at hd ⊢
    obtain hd | hd := List.mem_append.mp hd
    · rw [Function.update_of_ne (ne_of_mem_of_not_mem hd hc)]
      exact h.waiting d hd
    · rw [List.mem_singleton.mp hd, Function.update_self]
      exact hwaits
  told d hd rdb hrdb := by
    dsimp only [addSlave] at hd hrdb ⊢
    obtain hd | hd := List.mem_append.mp hd
    · rw [Function.update_of_ne (ne_of_mem_of_not_mem hd hc)] at hrdb ⊢
      obtain ⟨later, hlater, hframed⟩ := h.told d hd rdb hrdb
      refine ⟨later, hlater, ?_⟩
      obtain rfl | rfl := hsel
      · exact hframed.reset
      · exact hframed
    · rw [List.mem_singleton.mp hd, Function.update_self] at hrdb ⊢
      exact hnew rdb hrdb

theorem inv_finishSync (h : Inv dbnum s) {c : ClientId} (hc : c ∉ s.slaves) (junk : ℕ → UInt8)
    {state : ReplState} {buf : Bytes} (hchild : s.rdbChild ≠ none)
    (hnew : ∀ rdb, rdbOf s.rdbChild s.history ⟨state, buf, none, []⟩ = some rdb →
      ∃ later, s.history = rdb ++ later ∧ Framed dbnum none later buf) :
    ∃ s', finishSync junk s c state buf = some s' ∧ Inv dbnum s' := by
  rw [finishSync]
  dsimp only
  split
  · rename_i hfirst
    obtain ⟨stream, hcreate, hsome⟩ : ∃ stream,
        createReplicationBacklog junk s.stream = some stream ∧ stream.replBacklog ≠ none := by
      rw [createReplicationBacklog, show s.stream.replBacklog = none from hfirst.2]
      exact ⟨_, rfl, Option.some_ne_none _⟩
    refine ⟨_, by rw [show (addSlave s c _).stream = s.stream from rfl, hcreate]; rfl, ?_⟩
    exact inv_addSlave h hc (h.stream.create hcreate) hsome (.inl rfl) (fun _ => ⟨hchild, rfl⟩) hnew
  · rename_i hfirst
    refine ⟨_, rfl, inv_addSlave h hc h.stream (fun hnone => ?_) (.inl rfl)
      (fun _ => ⟨hchild, rfl⟩) hnew⟩
    by_cases hslaves : s.slaves = []
    · exact hfirst ⟨by rw [addSlave, hslaves]; rfl, hnone⟩
    · exact h.backlog hslaves hnone

theorem rdbOf_of_not_waits {child : Option Commands} {history : Commands} {slave : Slave}
    (h : ¬ Waits slave) : rdbOf child history slave = slave.rdb := by
  rw [rdbOf]
  split
  · rename_i heq
    exact absurd (.inl heq) h
  · rename_i heq
    exact absurd (.inr heq) h
  · rfl
  · rfl

theorem inv_rdbSaveBackground (h : Inv dbnum s) {fork : Bool} {s' : Server}
    (hs' : rdbSaveBackground s fork = some s') :
    Inv dbnum s' ∧ s'.slaves = s.slaves ∧ s'.history = s.history ∧
      s'.rdbChild = some s.history := by
  rw [rdbSaveBackground] at hs'
  split at hs'
  · rename_i hcan
    cases hs'
    have hnot : ∀ c ∈ s.slaves, ¬ Waits (s.client c) :=
      fun c hc hwaits => (h.waiting c hc hwaits).1 hcan.1
    refine ⟨⟨h.stream, h.backlog, fun c hc hwaits => absurd hwaits (hnot c hc), ?_⟩, rfl, rfl, rfl⟩
    intro c hc rdb hrdb
    rw [rdbOf_of_not_waits (hnot c hc)] at hrdb
    exact h.told c hc rdb (by rwa [rdbOf_of_not_waits (hnot c hc)])
  · cases hs'

theorem inv_fullResynchronization (h : Inv dbnum s) {c : ClientId} (hc : c ∉ s.slaves)
    (junk : ℕ → UInt8) (fork : Bool) :
    ∃ s', fullResynchronization junk s c fork = some s' ∧ Inv dbnum s' := by
  rw [fullResynchronization]
  split
  · rename_i hsome
    have hchild : s.rdbChild ≠ none := Option.isSome_iff_ne_none.mp hsome
    split
    · -- the text of a slave that waits for the same file
      rename_i d hfind
      have hd := List.mem_of_find?_eq_some hfind
      have hfound := List.find?_some hfind
      have hstate : (s.client d).replstate = .waitBgsaveEnd := of_decide_eq_true hfound
      refine inv_finishSync h hc junk hchild fun rdb hrdb => ?_
      obtain ⟨later, hlater, hframed⟩ := h.told d hd rdb (by rw [rdbOf, hstate]; exact hrdb)
      rw [(h.waiting d hd (.inr hstate)).2, List.nil_append] at hframed
      exact ⟨later, hlater, hframed.reset⟩
    · refine inv_finishSync h hc junk hchild fun rdb hrdb => ?_
      exact ⟨[], by rw [← Option.some_inj.mp hrdb, List.append_nil], .nil⟩
  · split
    · rename_i s' hs'
      obtain ⟨h', hslaves, hhistory, hchild⟩ := inv_rdbSaveBackground h hs'
      refine inv_finishSync h' (hslaves ▸ hc) junk (hchild ▸ Option.some_ne_none _) ?_
      intro rdb hrdb
      rw [rdbOf, hchild, ← hhistory] at hrdb
      exact ⟨[], by rw [← Option.some_inj.mp hrdb, List.append_nil], .nil⟩
    · exact ⟨s, rfl, h⟩

theorem inv_syncCommand (h : Inv dbnum s) (junk : ℕ → UInt8) (c : ClientId) (psync : Option ℤ)
    (fork : Bool) : ∃ s', syncCommand junk s c psync fork = some s' ∧ Inv dbnum s' := by
  unfold syncCommand
  split
  · exact ⟨s, rfl, h⟩
  · rename_i hc
    cases psync with
    | none => exact inv_fullResynchronization h hc junk fork
    | some offset =>
      dsimp only
      split
      · rename_i haccepts
        cases hb : s.stream.replBacklog with
        | none =>
          rw [acceptsOffset, hb] at haccepts
          cases haccepts
        | some b =>
          obtain ⟨hfits, hhist, -⟩ := h.stream.backlog b hb
          have hreply := addReplyReplicationBacklog_eq hb hfits hhist haccepts
          refine ⟨_, by rw [masterTryPartialResynchronization, hreply]; rfl, ?_⟩
          refine inv_addSlave h hc h.stream (hb ▸ Option.some_ne_none b) (.inr rfl)
            (fun hwaits => absurd hwaits (not_waits (.inr rfl))) fun rdb hrdb => ?_
          cases hrdb
      · exact inv_fullResynchronization h hc junk fork

theorem inv_freeSlaves (h : Inv dbnum s) (freed : ClientId → Bool) :
    Inv dbnum (freeSlaves s freed) where
  stream := h.stream
  backlog hne := h.backlog fun hnil => hne (by rw [freeSlaves, hnil]; rfl)
  waiting c hc := h.waiting c (List.mem_of_mem_filter hc)
  told c hc := h.told c (List.mem_of_mem_filter hc)

theorem inv_setClient (h : Inv dbnum s) {c : ClientId} {slave : Slave}
    (hwaits : ¬ Waits (s.client c)) (hwaits' : ¬ Waits slave) (hrdb : slave.rdb = (s.client c).rdb)
    (htext : slave.sent ++ slave.buf = (s.client c).sent ++ (s.client c).buf) :
    Inv dbnum (s.setClient c slave) := by
  refine ⟨h.stream, h.backlog, fun d hd => ?_, fun d hd => ?_⟩
  · dsimp only [Server.setClient]
    by_cases hdc : d = c
    · rw [hdc, Function.update_self]
      exact fun hw => absurd hw hwaits'
    · rw [Function.update_of_ne hdc]
      exact h.waiting d hd
  · dsimp only [Server.setClient]
    by_cases hdc : d = c
    · subst hdc
      rw [Function.update_self, htext, rdbOf_of_not_waits hwaits', hrdb,
        ← rdbOf_of_not_waits hwaits]
      exact h.told d hd
    · rw [Function.update_of_ne hdc]
      exact h.told d hd

/-! ### The end of a BGSAVE -/

theorem waits_updatedSlave {rdbFile : Option Commands} {slave : Slave}
    (h : Waits (updatedSlave rdbFile slave)) :
    slave.replstate = .waitBgsaveStart ∧ (updatedSlave rdbFile slave).sent = slave.sent := by
  rw [updatedSlave] at h ⊢
  split at h
  · rename_i hstate
    exact ⟨hstate, rfl⟩
  · exact absurd h (not_waits (.inl rfl))
  · rename_i hstart hend
    exact absurd h fun hor => hor.elim hstart hend

theorem inv_updateSlavesWaitingBgsave {child : Option Commands} {ok fork : Bool}
    (unreadable : ClientId → Bool) (hstream : s.stream.Ok)
    (hbacklog : s.slaves ≠ [] → s.stream.replBacklog ≠ none)
    (hsent : ∀ c ∈ s.slaves, Waits (s.client c) → (s.client c).sent = [])
    (htold : AllTold dbnum child s) (hchild : s.rdbChild = none)
    (hfile : ∀ c ∈ s.slaves, (s.client c).replstate = .waitBgsaveEnd → ok = true →
      s.rdbFile = child)
    (hfork : ∀ c ∈ s.slaves, (s.client c).replstate = .waitBgsaveStart → fork = true) :
    Inv dbnum (updateSlavesWaitingBgsave s ok unreadable fork) := by
  -- after the loop, the slaves wait for the next BGSAVE
  have hmem : ∀ c ∈ (serveSlaves s ok unreadable).slaves, c ∈ s.slaves ∧
      bgsaveFails s ok unreadable c = false ∧
      (serveSlaves s ok unreadable).client c = updatedSlave s.rdbFile (s.client c) := by
    intro c hc
    obtain ⟨hc, hfails⟩ := List.mem_filter.mp hc
    exact ⟨hc, Bool.not_eq_true' _ ▸ hfails, if_pos hc⟩
  have htold' : AllTold dbnum (some s.history) (serveSlaves s ok unreadable) := by
    intro c hc rdb hrdb
    obtain ⟨hc, hfails, hclient⟩ := hmem c hc
    rw [hclient] at hrdb ⊢
    cases hstate : (s.client c).replstate with
    | waitBgsaveStart =>
      simp only [updatedSlave, hstate] at hrdb ⊢
      exact htold c hc rdb (by rw [rdbOf, hstate]; exact hrdb)
    | waitBgsaveEnd =>
      simp only [updatedSlave, hstate] at hrdb ⊢
      have hok : ok = true := by
        by_contra hnot
        rw [bgsaveFails, decide_eq_false_iff_not] at hfails
        exact hfails ⟨hstate, .inl (Bool.not_eq_true _ ▸ hnot)⟩
      refine htold c hc rdb ?_
      rw [rdbOf, hstate]
      exact (hfile c hc hstate hok).symm.trans hrdb
    | sendBulk | online =>
      simp only [updatedSlave, hstate] at hrdb ⊢
      exact htold c hc rdb (by rw [rdbOf, hstate] at hrdb ⊢; exact hrdb)
  have hwaits : ∀ c ∈ (serveSlaves s ok unreadable).slaves,
      Waits ((serveSlaves s ok unreadable).client c) →
      (s.client c).replstate = .waitBgsaveStart ∧
        ((serveSlaves s ok unreadable).client c).sent = [] := by
    intro c hc hwaits
    obtain ⟨hc, -, hclient⟩ := hmem c hc
    rw [hclient] at hwaits ⊢
    obtain ⟨hstart, hsame⟩ := waits_updatedSlave hwaits
    exact ⟨hstart, hsame.trans (hsent c hc (.inl hstart))⟩
  have hbacklog' : (serveSlaves s ok unreadable).slaves ≠ [] → s.stream.replBacklog ≠ none :=
    fun hne => hbacklog fun hnil => hne (by rw [serveSlaves, freeSlaves, hnil]; rfl)
  rw [updateSlavesWaitingBgsave]
  split
  · rename_i hstart
    obtain ⟨c, hc, hstate⟩ := List.any_eq_true.mp hstart
    have hcan : (serveSlaves s ok unreadable).rdbChild = none ∧ fork = true :=
      ⟨hchild, hfork c hc (of_decide_eq_true hstate)⟩
    rw [rdbSaveBackground, if_pos hcan]
    exact ⟨hstream, hbacklog', fun d hd hw => ⟨Option.some_ne_none _, (hwaits d hd hw).2⟩, htold'⟩
  · rename_i hnone
    have hnot : ∀ c ∈ (serveSlaves s ok unreadable).slaves,
        ¬ Waits ((serveSlaves s ok unreadable).client c) := by
      intro c hc hw
      refine hnone (List.any_eq_true.mpr ⟨c, (hmem c hc).1, ?_⟩)
      exact decide_eq_true (hwaits c hc hw).1
    refine ⟨hstream, hbacklog', fun c hc hw => absurd hw (hnot c hc), fun c hc rdb hrdb => ?_⟩
    rw [rdbOf_of_not_waits (hnot c hc)] at hrdb
    exact htold' c hc rdb (by rwa [rdbOf_of_not_waits (hnot c hc)])

theorem inv_backgroundSaveDoneHandler (h : Inv dbnum s) {status : BgsaveEnd}
    (unreadable : ClientId → Bool) {fork : Bool}
    (hfork : ∀ c ∈ s.slaves, (s.client c).replstate = .waitBgsaveStart → fork = true)
    (hkilled : status = .killed → ∀ c ∈ s.slaves, (s.client c).replstate ≠ .waitBgsaveEnd) :
    Inv dbnum (backgroundSaveDoneHandler s status unreadable fork) := by
  have hsent := fun c hc hw => (h.waiting c hc hw).2
  have htold := h.told
  unfold backgroundSaveDoneHandler
  split
  · exact h
  · rename_i history hchild
    rw [hchild] at htold
    exact inv_updateSlavesWaitingBgsave unreadable h.stream h.backlog hsent htold rfl
      (fun _ _ _ _ => rfl) hfork
  · rename_i history hchild
    exact inv_updateSlavesWaitingBgsave unreadable h.stream h.backlog hsent htold rfl
      (fun _ _ _ hok => by cases hok) hfork
  · rename_i history hchild
    exact inv_updateSlavesWaitingBgsave unreadable h.stream h.backlog hsent htold rfl
      (fun c hc hend _ => absurd hend (hkilled rfl c hc)) hfork

/-! ### Runs -/

variable (dbnum)

/-- The condition on an event.  A BGSAVE that slaves wait for can start, and the child of one that
slaves wait for is not killed. -/
def Sound (s : Server) : Event → Prop
  | .write dictid argv => dictid < dbnum ∧ IsWrite argv
  | .bgsaveDone status _ fork =>
    (∀ c ∈ s.slaves, (s.client c).replstate = .waitBgsaveStart → fork = true) ∧
      (status = .killed → ∀ c ∈ s.slaves, (s.client c).replstate ≠ .waitBgsaveEnd)
  | _ => True

/-- A slave with an RDB file: the commands of the file and the ones it has read so far are the
first ones of the master, and all of them when it has read what is queued. -/
structure Follows (s : Server) (slave : Slave) (rdb : Commands) : Prop where
  past : ∀ argvs, encode argvs <+: slave.sent → rdb ++ (executed dbnum argvs).2 <+: s.history
  queued : ∃ argvs, slave.sent ++ slave.buf = encode argvs ∧
    rdb ++ (executed dbnum argvs).2 = s.history

variable {dbnum}

theorem inv_step (hdbnum : dbnum < 2 ^ 31) (h : Inv dbnum s) {e : Event} (he : Sound dbnum s e) :
    ∃ s', step s e = some s' ∧ Inv dbnum s' := by
  cases e with
  | write dictid argv => exact inv_write h he.1 hdbnum he.2
  | service getack => exact inv_service h getack
  | sync junk c psync fork => exact inv_syncCommand h junk c psync fork
  | bgsave fork =>
    refine ⟨_, rfl, ?_⟩
    cases hs' : rdbSaveBackground s fork with
    | none => exact h
    | some s' => exact (inv_rdbSaveBackground h hs').1
  | bgsaveDone status unreadable fork =>
    exact ⟨_, rfl, inv_backgroundSaveDoneHandler h unreadable he.1 he.2⟩
  | bulkSent c =>
    refine ⟨_, rfl, ?_⟩
    rw [sendBulkDone]
    split
    · rename_i hstate
      exact inv_setClient h (not_waits (.inl hstate)) (not_waits (.inr rfl)) rfl rfl
    · exact h
  | reply c n =>
    refine ⟨_, rfl, ?_⟩
    rw [sendReplyToClient]
    split
    · rename_i hstate
      refine inv_setClient h (not_waits (.inr hstate)) (not_waits (.inr hstate)) rfl ?_
      rw [List.append_assoc, List.take_append_drop]
    · exact h
  | freeClient c => exact ⟨_, rfl, inv_freeSlaves h _⟩
  | resizeBacklog junk newsize =>
    refine ⟨_, rfl, h.stream.resize junk newsize, fun hne => ?_, h.waiting, h.told⟩
    obtain heq | ⟨size, -, heq⟩ := resizeReplicationBacklog_eq junk s.stream newsize
    · rw [heq]
      exact h.backlog hne
    · rw [heq]
      exact fun hnone => h.backlog hne (Option.map_eq_none_iff.mp hnone)
  | freeBacklog =>
    refine ⟨_, rfl, ?_⟩
    split
    · rename_i hnil
      exact inv_of_no_slaves h.stream.free hnil
    · exact h

theorem follows_of_told {slave : Slave} {rdb : Commands}
    (h : Told dbnum s rdb (slave.sent ++ slave.buf)) : Follows dbnum s slave rdb := by
  obtain ⟨later, hlater, argvs, htext, rfl, -⟩ := h
  refine ⟨fun read hread => ?_, argvs, htext, hlater.symm⟩
  rw [hlater, List.prefix_append_right_inj]
  refine executed_extends (prefix_of_encode ?_)
  rw [← htext]
  exact hread.trans (List.prefix_append _ _)

/-- In every run in which a BGSAVE that slaves wait for can start and is not killed, no assertion
fails, and every slave with an RDB file follows the master. -/
theorem slaves_follow (hdbnum : dbnum < 2 ^ 31) {s₀ : Server} (hslaves : s₀.slaves = [])
    (hstream : s₀.stream.replBacklog = none) (hsize : 0 < s₀.stream.replBacklogSize)
    {es : List Event} (hes : Runs.AllSteps step (Sound dbnum) s₀ es) :
    ∃ s, Runs.run step s₀ es = some s ∧
      ∀ c ∈ s.slaves, ¬ Waits (s.client c) → ∀ rdb, (s.client c).rdb = some rdb →
        Follows dbnum s (s.client c) rdb := by
  have hok : s₀.stream.Ok := ⟨hsize, fun b hb => by rw [hstream] at hb; cases hb⟩
  obtain ⟨s, hrun, hs⟩ := Runs.run_total_of_allSteps
    (fun s e h he => inv_step hdbnum h he) (inv_of_no_slaves hok hslaves) hes
  refine ⟨s, hrun, fun c hc hnot rdb hrdb => follows_of_told (hs.told c hc rdb ?_)⟩
  rwa [rdbOf_of_not_waits hnot]

end

/-- A server with a dataset that was loaded. -/
def loadedServer : Server where
  stream := { masterReplOffset := 0, replBacklogSize := backlogMinSize, replBacklog := none }
  slaveseldb := none
  slaves := []
  client _ := { replstate := .online, buf := [], rdb := none, sent := [] }
  rdbChild := none
  rdbFile := none
  history := [(0, [ascii "SET".toList, [97], [98]])]

/-- A slave that attaches, and a command that is queued while the file is sent. -/
theorem slaves_follow_set : ∃ s, Runs.run step loadedServer
    [.sync (fun _ => 0) 1 none true, .bgsaveDone (.exited true) (fun _ => false) true,
      .write 3 [ascii "DEL".toList, [97]], .bulkSent 1, .reply 1 30] = some s ∧
    ∀ c ∈ s.slaves, ¬ Waits (s.client c) → ∀ rdb, (s.client c).rdb = some rdb →
      Follows 16 s (s.client c) rdb := by
  refine slaves_follow (by decide) rfl rfl (by decide)
    ⟨trivial, fun _ _ => ⟨⟨fun _ _ _ => rfl, ?_⟩, ?_⟩⟩
  · intro h
    cases h
  · intro _ _
    exact ⟨⟨by decide, by decide, by decide, by decide⟩, fun _ _ => ⟨trivial, fun _ _ =>
      ⟨trivial, fun _ _ => trivial⟩⟩⟩

end Replication

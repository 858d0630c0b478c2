/-
Runs of PFADD, PFCOUNT and PFMERGE.

* `elementRegisters` — the registers that a list of elements is meant to lead to;
* `PfState` — the keys, with the elements that were added to each of them, and the keys that were
  counted since they were modified;
* `Faithful` — what holds in every reachable state;
* `pfcount_cache`, `hllAdd_elements`, `pfmerge_union` — the results.
-/
import RedisModel.HyperloglogDense
import RedisModel.Runs

open ByteBuffer

namespace Hyperloglog

/-! ### Registers of elements -/

/-- The largest count of the elements of a register. -/
def elementRegister (hash : Bytes → BitVec 64) (eles : List Bytes) (i : ℕ) : ℕ :=
  eles.foldl (fun m ele => if (hllPatLen hash ele).1 = i then Nat.max m (hllPatLen hash ele).2
    else m) 0

/-- The registers of a HyperLogLog with some elements. -/
def elementRegisters (hash : Bytes → BitVec 64) (eles : List Bytes) : List ℕ :=
  (List.range hllRegisters).map (elementRegister hash eles)

section
variable {hash : Bytes → BitVec 64}

theorem elementRegister_append (eles : List Bytes) (ele : Bytes) (i : ℕ) :
    elementRegister hash (eles ++ [ele]) i
      = if (hllPatLen hash ele).1 = i then
          Nat.max (elementRegister hash eles i) (hllPatLen hash ele).2
        else elementRegister hash eles i := by
  rw [elementRegister, List.foldl_append]
  rfl

theorem getElem?_elementRegisters (eles : List Bytes) {i : ℕ} (hi : i < hllRegisters) :
    (elementRegisters hash eles)[i]? = some (elementRegister hash eles i) := by
  rw [elementRegisters, List.getElem?_map, List.getElem?_range hi]
  rfl

theorem length_elementRegisters (eles : List Bytes) :
    (elementRegisters hash eles).length = hllRegisters := by
  rw [elementRegisters, List.length_map, List.length_range]

theorem elementRegisters_nil : elementRegisters hash [] = emptyRegisters := by
  rw [emptyRegisters, List.eq_replicate_iff]
  refine ⟨length_elementRegisters [], fun r hr => ?_⟩
  obtain ⟨i, -, rfl⟩ := List.mem_map.mp hr
  rfl

theorem elementRegisters_append (eles : List Bytes) (ele : Bytes) :
    elementRegisters hash (eles ++ [ele]) = (elementRegisters hash eles).set (hllPatLen hash ele).1
      (Nat.max (elementRegister hash eles (hllPatLen hash ele).1) (hllPatLen hash ele).2) := by
  refine List.ext_getElem? fun i => ?_
  by_cases hi : i < hllRegisters
  · rw [getElem?_elementRegisters _ hi, elementRegister_append]
    by_cases heq : (hllPatLen hash ele).1 = i
    · rw [if_pos heq, heq, List.getElem?_set_self (by rw [length_elementRegisters]; exact hi)]
    · rw [if_neg heq, List.getElem?_set_ne heq, getElem?_elementRegisters _ hi]
  · rw [List.getElem?_eq_none (by rw [length_elementRegisters]; omega),
      List.getElem?_eq_none (by rw [List.length_set, length_elementRegisters]; omega)]

theorem elementRegister_le_iff {eles : List Bytes} {i n : ℕ} :
    elementRegister hash eles i ≤ n ↔
      ∀ ele ∈ eles, (hllPatLen hash ele).1 = i → (hllPatLen hash ele).2 ≤ n := by
  induction eles using List.reverseRecOn with
  | nil => exact ⟨fun _ ele hele => absurd hele List.not_mem_nil, fun _ => Nat.zero_le n⟩
  | append_singleton eles ele ih =>
    rw [elementRegister_append, List.forall_mem_append, ← ih, List.forall_mem_singleton]
    split
    · rename_i heq
      rw [show Nat.max (elementRegister hash eles i) (hllPatLen hash ele).2 ≤ n ↔ _ from
        Nat.max_le]
      exact and_congr_right fun _ => ⟨fun h _ => h, fun h => h heq⟩
    · rename_i hne
      exact ⟨fun h => ⟨h, fun heq => absurd heq hne⟩, And.left⟩

theorem elementRegisters_congr {a b : List Bytes} (h : ∀ ele, ele ∈ a ↔ ele ∈ b) :
    elementRegisters hash a = elementRegisters hash b := by
  refine List.map_congr_left fun i _ => Nat.le_antisymm ?_ ?_
  · exact elementRegister_le_iff.mpr fun ele hele hi =>
      elementRegister_le_iff.mp (Nat.le_refl _) ele ((h ele).mp hele) hi
  · exact elementRegister_le_iff.mpr fun ele hele hi =>
      elementRegister_le_iff.mp (Nat.le_refl _) ele ((h ele).mpr hele) hi

theorem maxRegisters_elementRegisters (a b : List Bytes) :
    maxRegisters (elementRegisters hash a) (elementRegisters hash b)
      = elementRegisters hash (a ++ b) := by
  rw [maxRegisters, elementRegisters, elementRegisters, List.zipWith_map_left,
    List.zipWith_map_right, List.zipWith_self]
  refine List.map_congr_left fun i _ => Nat.le_antisymm ?_ ?_
  · refine Nat.max_le.mpr ⟨?_, ?_⟩
    · exact elementRegister_le_iff.mpr fun ele hele hi =>
        elementRegister_le_iff.mp (Nat.le_refl _) ele (List.mem_append_left b hele) hi
    · exact elementRegister_le_iff.mpr fun ele hele hi =>
        elementRegister_le_iff.mp (Nat.le_refl _) ele (List.mem_append_right a hele) hi
  · refine elementRegister_le_iff.mpr fun ele hele hi => ?_
    rcases List.mem_append.mp hele with hele | hele
    · exact (elementRegister_le_iff.mp (Nat.le_refl _) ele hele hi).trans (Nat.le_max_left _ _)
    · exact (elementRegister_le_iff.mp (Nat.le_refl _) ele hele hi).trans (Nat.le_max_right _ _)

end

/-! ### Adding elements -/

section
variable (hash : Bytes → BitVec 64) (junk : ℕ → UInt8) (maxBytes : ℕ)

theorem hllAdd_elementRegisters {s : Bytes} {eles : List Bytes}
    (h : Represents s (elementRegisters hash eles)) (ele : Bytes) :
    ∃ s' retval, hllAdd hash junk maxBytes s ele = some (s', retval) ∧
      Represents s' (elementRegisters hash (eles ++ [ele])) ∧
      (s'[4]? = some hllSparse → s'.length ≤ s.length + 3) ∧
      (retval = 0 ∧ s' = s ∧ elementRegisters hash (eles ++ [ele]) = elementRegisters hash eles ∨
        retval = 1 ∧ elementRegisters hash (eles ++ [ele]) ≠ elementRegisters hash eles) := by
  obtain ⟨hindex, -, -⟩ := hllPatLen_spec hash ele
  have hold : (elementRegisters hash eles)[(hllPatLen hash ele).1]? = _ :=
    getElem?_elementRegisters eles hindex
  obtain ⟨hsame, hset⟩ := hllAdd_spec hash junk maxBytes h ele hold
  rw [elementRegisters_append]
  set old := elementRegister hash eles (hllPatLen hash ele).1 with hodef
  by_cases hle : (hllPatLen hash ele).2 ≤ old
  · have hregs : (elementRegisters hash eles).set (hllPatLen hash ele).1
        (Nat.max old (hllPatLen hash ele).2) = elementRegisters hash eles := by
      rw [show Nat.max old (hllPatLen hash ele).2 = old from Nat.max_eq_left hle]
      obtain ⟨hi, hget⟩ := List.getElem?_eq_some_iff.mp hold
      rw [← hget, List.set_getElem_self]
    rw [hregs]
    exact ⟨s, 0, hsame hle, h, fun _ => Nat.le_add_right _ 3, .inl ⟨rfl, rfl, rfl⟩⟩
  · have hlt : old < (hllPatLen hash ele).2 := Nat.lt_of_not_le hle
    obtain ⟨s', hadd, hs', hgrow⟩ := hset hlt
    rw [show Nat.max old (hllPatLen hash ele).2 = (hllPatLen hash ele).2 from
      Nat.max_eq_right hlt.le]
    refine ⟨s', 1, hadd, hs', hgrow, .inr ⟨rfl, fun heq => ?_⟩⟩
    rw [← heq, List.getElem?_set_self (by rw [length_elementRegisters]; exact hindex)] at hold
    exact hlt.ne (Option.some_inj.mp hold).symm

/-- An empty HyperLogLog after `hllAdd` for each element. -/
def hllAddAll (eles : List Bytes) : Option Bytes :=
  eles.foldlM (fun s ele => (hllAdd hash junk maxBytes s ele).map Prod.fst) createHLLObject

theorem hllAddAll_spec (eles : List Bytes) :
    ∃ s, hllAddAll hash junk maxBytes eles = some s ∧
      Represents s (elementRegisters hash eles) := by
  induction eles using List.reverseRecOn with
  | nil =>
    refine ⟨createHLLObject, rfl, ?_⟩
    rw [elementRegisters_nil]
    exact represents_createHLLObject
  | append_singleton eles ele ih =>
    obtain ⟨s, hs, hrep⟩ := ih
    obtain ⟨s', retval, hadd, hrep', -, -⟩ := hllAdd_elementRegisters hash junk maxBytes hrep ele
    refine ⟨s', ?_, hrep'⟩
    rw [hllAddAll] at hs
    rw [hllAddAll, List.foldlM_append, hs]
    dsimp only [Option.bind_eq_bind, Option.bind_some]
    rw [List.foldlM_cons, hadd]
    rfl

theorem Represents.sparse_opcodes {s : Bytes} {regs : List ℕ} (h : Represents s regs)
    (hsparse : s[4]? = some hllSparse) : ∃ ops, Sparse s ops ∧ opcodeRegisters ops = regs := by
  cases h with
  | @sparse ops h => exact ⟨ops, h, rfl⟩
  | dense h => exact absurd hsparse h.not_sparse

theorem pfaddLoop_spec {s : Bytes} {eles₀ : List Bytes}
    (h : Represents s (elementRegisters hash eles₀)) (eles : List Bytes) (n : ℕ) :
    ∃ s' n', pfaddLoop hash junk maxBytes eles s n = some (s', n', false) ∧
      Represents s' (elementRegisters hash (eles₀ ++ eles)) ∧ n ≤ n' ∧ (n' = n → s' = s) := by
  induction eles generalizing s eles₀ n with
  | nil => exact ⟨s, n, rfl, by rwa [List.append_nil], Nat.le_refl n, fun _ => rfl⟩
  | cons ele eles ih =>
    obtain ⟨s₁, retval, hadd, h₁, -, hretval⟩ := hllAdd_elementRegisters hash junk maxBytes h ele
    have happend : eles₀ ++ ele :: eles = (eles₀ ++ [ele]) ++ eles := by
      rw [List.append_assoc, List.singleton_append]
    rw [happend, pfaddLoop, hadd]
    dsimp only [Option.bind_eq_bind, Option.bind_some]
    rcases hretval with ⟨rfl, rfl, -⟩ | ⟨rfl, -⟩
    · rw [if_neg (by decide), if_neg (by decide)]
      exact ih h₁ n
    · rw [if_pos rfl]
      obtain ⟨s', n', hloop, h', hle, -⟩ := ih h₁ (n + 1)
      exact ⟨s', n', hloop, h', by omega, fun heq => by omega⟩

end

/-! ### The cache -/

/-- The cached cardinality of a string. -/
def CardIs (s : Bytes) (card : ℕ) : Prop := slice s 8 8 = some (leBytes 8 card)

theorem flag_byte : ∀ k < 256, (UInt8.ofNat k &&& cacheFlag = 0 ↔ k < 128) := by
  decide +kernel

theorem validCache_of_card {s : Bytes} {card : ℕ} (h : CardIs s card) :
    validCache s = some (decide (card % 256 < 128)) := by
  have hbyte : s[8]? = some (UInt8.ofNat (card % 256)) := by
    have hcard := h
    rw [CardIs, slice] at hcard
    split at hcard
    · have htake := Option.some_inj.mp hcard
      have hhead : ((s.drop 8).take 8)[0]? = s[8]? := by
        rw [List.getElem?_take_of_lt (by decide), List.getElem?_drop]
      rw [← hhead, htake]
      rfl
    · cases hcard
  rw [validCache, hbyte, Option.map_some, decide_eq_decide.mpr (flag_byte _ (Nat.mod_lt _ (by decide)))]

theorem flag_or (b : UInt8) : (b ||| cacheFlag) &&& cacheFlag ≠ 0 := by
  intro h
  have hbit : ((b ||| cacheFlag) &&& cacheFlag).toBitVec.getLsbD 7 = false := by rw [h]; rfl
  rw [UInt8.toBitVec_and, UInt8.toBitVec_or, BitVec.getLsbD_and, BitVec.getLsbD_or,
    show cacheFlag.toBitVec.getLsbD 7 = true from rfl, Bool.or_true, Bool.and_true] at hbit
  exact Bool.false_ne_true hbit.symm

theorem invalidateCache_spec {s : Bytes} {regs : List ℕ} (h : Represents s regs) :
    ∃ s', invalidateCache s = some s' ∧ Represents s' regs ∧ validCache s' = some false := by
  obtain ⟨b, hb, hset⟩ := h.set_byte
  refine ⟨s.set 8 (b ||| cacheFlag), ?_, hset _, ?_⟩
  · rw [invalidateCache, hb]
    rfl
  · have hlt := (List.getElem?_eq_some_iff.mp hb).1
    rw [validCache, List.getElem?_set_self hlt, Option.map_some, decide_eq_false (flag_or b)]

theorem Represents.validCache {s : Bytes} {regs : List ℕ} (h : Represents s regs) :
    ∃ valid, validCache s = some valid := by
  obtain ⟨b, hb, -⟩ := h.set_byte
  exact ⟨_, by rw [Hyperloglog.validCache, hb]; rfl⟩

/-! ### Runs -/

inductive PfCommand (K : Type) where
  | pfadd (key : K) (eles : List Bytes)
  | pfcount (key : K) (keys : List K)
  | pfmerge (dest : K) (srcs : List K)

/-- The keys, the elements that were added to each key, and whether nothing modified a key since
it was counted. -/
structure PfState (K : Type) where
  server : Server K
  elements : K → List Bytes
  counted : K → Bool

/-- The command was executed. -/
def Reply.succeeded : Reply → Bool
  | .error _ => false
  | _ => true

section
variable {K : Type} [DecidableEq K]

def pfBegin (server : Server K) : PfState K := ⟨server, fun _ => [], fun _ => false⟩

/-- The server when a command begins: no key was modified yet. -/
def PfState.start (w : PfState K) : Server K := { w.server with signals := [] }

/-- After PFADD or PFMERGE; `eles` is added to a key if the command was executed. -/
def PfState.modified (w : PfState K) (key : K) (eles : List Bytes) (r : Server K × Reply) :
    PfState K where
  server := r.1
  elements := if r.2.succeeded then Function.update w.elements key (w.elements key ++ eles)
    else w.elements
  counted := fun k => w.counted k && decide (k ∉ r.1.signals)

/-- After PFCOUNT of one key. -/
def PfState.afterCount (w : PfState K) (key : K) (r : Server K × Reply) : PfState K where
  server := r.1
  elements := w.elements
  counted := if r.2.succeeded then Function.update w.counted key true else w.counted

section
variable (hash : Bytes → BitVec 64) (junk : ℕ → UInt8) (maxBytes : ℕ) (estimate : List ℕ → ℕ)

def pfStep (w : PfState K) : PfCommand K → Option (PfState K)
  | .pfadd key eles => (pfaddCommand hash junk maxBytes w.start key eles).map (w.modified key eles)
  | .pfcount key [] => (pfcountCommand estimate w.start key []).map (w.afterCount key)
  | .pfcount key (key' :: keys) =>
    (pfcountCommand estimate w.start key (key' :: keys)).map fun r => { w with server := r.1 }
  | .pfmerge dest srcs =>
    (pfmergeCommand w.start dest srcs).map (w.modified dest (srcs.flatMap w.elements))

/-- A string that is a HyperLogLog of some elements, whose cache tells the estimate if it is
valid, and at any rate if nothing modified the key since it was counted. -/
structure HllOf (s : Bytes) (eles : List Bytes) (counted : Bool) : Prop where
  represents : Represents s (elementRegisters hash eles)
  cached : validCache s = some true → CardIs s (estimate (elementRegisters hash eles))
  counted : counted = true → CardIs s (estimate (elementRegisters hash eles))

/-- What holds in every reachable state. -/
structure Faithful (w : PfState K) : Prop where
  hll : ∀ key s, w.server.db key = some (.string s) → isHLLObject s = true →
    HllOf hash estimate s (w.elements key) (w.counted key)
  absent : ∀ key, (∀ s, w.server.db key = some (.string s) → isHLLObject s = false) →
    w.elements key = []

variable {hash estimate} {w : PfState K}

omit [DecidableEq K] in
theorem Faithful.lookup (hw : Faithful hash estimate w) (key : K) :
    (w.server.db key = none ∧ w.elements key = []) ∨
      (∃ o m, w.server.db key = some o ∧ isHLLObjectOrReply o = .error (.error m) ∧
        w.elements key = []) ∨
      ∃ s, w.server.db key = some (.string s) ∧ isHLLObjectOrReply (.string s) = .ok s ∧
        HllOf hash estimate s (w.elements key) (w.counted key) := by
  cases hkey : w.server.db key with
  | none => exact .inl ⟨rfl, hw.absent key fun _ hs => absurd (hkey.symm.trans hs) (by simp)⟩
  | some o =>
    cases o with
    | other =>
      exact .inr (.inl ⟨.other, _, rfl, rfl,
        hw.absent key fun _ hs => absurd (hkey.symm.trans hs) (by simp)⟩)
    | string s =>
      cases hs : isHLLObject s with
      | true => exact .inr (.inr ⟨s, rfl, if_pos hs, hw.hll key s hkey hs⟩)
      | false =>
        refine .inr (.inl ⟨.string s, _, rfl, if_neg (by rw [hs]; decide), hw.absent key
          fun s' hs' => ?_⟩)
        obtain rfl : s = s' := Value.string.inj (Option.some_inj.mp (hkey.symm.trans hs'))
        exact hs

/-- What PFADD and PFMERGE do to a key. -/
inductive Modified (hash : Bytes → BitVec 64) (w : PfState K) (key : K) (eles : List Bytes) :
    Server K × Reply → Prop where
  | error (m : String) : Modified hash w key eles (w.start, .error m)
  | same {s : Bytes} {reply : Reply} : w.server.db key = some (.string s) →
      isHLLObject s = true → Represents s (elementRegisters hash (w.elements key ++ eles)) →
      reply.succeeded = true → Modified hash w key eles (w.start, reply)
  | written {s : Bytes} {reply : Reply} :
      Represents s (elementRegisters hash (w.elements key ++ eles)) →
      validCache s = some false → reply.succeeded = true →
      Modified hash w key eles ((w.start.setString key s).touch key, reply)

theorem setString_same {server : Server K} {key : K} {s : Bytes}
    (h : server.db key = some (.string s)) : server.setString key s = server := by
  rw [Server.setString, ← h, Function.update_eq_self]

theorem Faithful.modified (hw : Faithful hash estimate w) {key : K} {eles : List Bytes}
    {r : Server K × Reply} (hr : Modified hash w key eles r) :
    Faithful hash estimate (w.modified key eles r) := by
  cases hr with
  | error m =>
    have hcounted : ∀ k, (w.modified key eles (w.start, .error m)).counted k = w.counted k :=
      fun k => by
        show (w.counted k && decide (k ∉ [])) = w.counted k
        simp
    exact ⟨fun k s hs hhll => (hcounted k).symm ▸ hw.hll k s hs hhll, hw.absent⟩
  | @same s reply hkey hhll hs hreply =>
    have hcounted : ∀ k, (w.modified key eles (w.start, reply)).counted k = w.counted k :=
      fun k => by
        show (w.counted k && decide (k ∉ [])) = w.counted k
        simp
    have helements : (w.modified key eles (w.start, reply)).elements
        = Function.update w.elements key (w.elements key ++ eles) := if_pos hreply
    refine ⟨fun k s' hk hk' => ?_, fun k hk => ?_⟩
    · have hold := hw.hll k s' hk hk'
      rw [hcounted, helements]
      by_cases hkk : k = key
      · subst hkk
        obtain rfl : s = s' := Value.string.inj (Option.some_inj.mp (hkey.symm.trans hk))
        -- The registers are the same, so the cache is right for them too.
        have hregs : elementRegisters hash (w.elements k ++ eles)
            = elementRegisters hash (w.elements k) := by
          have h₁ := hllCountRegisters_spec hs
          rw [hllCountRegisters_spec hold.represents] at h₁
          exact (Option.some_inj.mp (Option.some_inj.mp h₁)).symm
        rw [Function.update_self]
        exact ⟨hs, hregs.symm ▸ hold.cached, hregs.symm ▸ hold.counted⟩
      · rw [Function.update_of_ne hkk]
        exact hold
    · have hne : k ≠ key := fun heq => by
        rw [heq] at hk
        exact absurd ((hk s hkey).symm.trans hhll) (by decide)
      rw [helements, Function.update_of_ne hne]
      exact hw.absent k hk
  | @written s reply hs hinvalid hreply =>
    have hdb : (w.modified key eles ((w.start.setString key s).touch key, reply)).server.db
        = Function.update w.server.db key (some (.string s)) := rfl
    have hcounted : ∀ k, (w.modified key eles
        ((w.start.setString key s).touch key, reply)).counted k = (w.counted k && decide (k ≠ key)) :=
      fun k => by
        show (w.counted k && decide (k ∉ [key])) = _
        simp
    have helements : (w.modified key eles ((w.start.setString key s).touch key, reply)).elements
        = Function.update w.elements key (w.elements key ++ eles) := if_pos hreply
    refine ⟨fun k s' hk hk' => ?_, fun k hk => ?_⟩
    · rw [hcounted, helements]
      rw [hdb] at hk
      by_cases hkk : k = key
      · subst hkk
        rw [Function.update_self] at hk
        obtain rfl : s = s' := Value.string.inj (Option.some_inj.mp hk)
        rw [Function.update_self]
        refine ⟨hs, fun hv => ?_, fun hc => ?_⟩
        · exact absurd (hinvalid.symm.trans hv) (by decide)
        · simp at hc
      · rw [Function.update_of_ne hkk] at hk ⊢
        rw [decide_eq_true hkk, Bool.and_true]
        exact hw.hll k s' hk hk'
    · rw [hdb] at hk
      by_cases hkk : k = key
      · subst hkk
        exact absurd ((hk s (Function.update_self _ _ _)).symm.trans hs.isHLLObject) (by decide)
      · rw [helements, Function.update_of_ne hkk]
        refine hw.absent k fun s' hs' => hk s' ?_
        rw [Function.update_of_ne hkk]
        exact hs'

theorem pfaddCommand_spec (hw : Faithful hash estimate w) (junk : ℕ → UInt8) (maxBytes : ℕ)
    (key : K) (eles : List Bytes) :
    ∃ r, pfaddCommand hash junk maxBytes w.start key eles = some r ∧
      Modified hash w key eles r := by
  -- After the loop, the cache is invalidated unless nothing was updated.
  have hend : ∀ {s : Bytes} {n : ℕ}, Represents s (elementRegisters hash (w.elements key)) →
      (n = 0 → w.server.db key = some (.string s)) →
      ∃ r, ((pfaddLoop hash junk maxBytes eles s n).bind fun x =>
        if x.2.2 = true then some (w.start.setString key x.1, invalidHllErr)
        else if x.2.1 ≠ 0 then (invalidateCache x.1).bind fun s =>
          some ((w.start.setString key s).touch key, .integer 1)
        else some (w.start.setString key x.1, .integer 0)) = some r ∧
        Modified hash w key eles r := by
    intro s n hs hkey
    obtain ⟨s', n', hloop, hs', hle, hsame⟩ := pfaddLoop_spec hash junk maxBytes hs eles n
    rw [hloop, Option.bind_some]
    dsimp only
    rw [if_neg Bool.false_ne_true]
    by_cases hn : n' = 0
    · obtain rfl := hsame (by omega)
      have hkey' := hkey (by omega)
      rw [if_neg fun hne => hne hn, setString_same (show w.start.db key = _ from hkey')]
      exact ⟨_, rfl, .same hkey' hs'.isHLLObject hs' rfl⟩
    · obtain ⟨s'', hinv, hs'', hvalid⟩ := invalidateCache_spec hs'
      rw [if_pos hn, hinv]
      exact ⟨_, rfl, .written hs'' hvalid rfl⟩
  have hstart : w.start.db key = w.server.db key := rfl
  rw [pfaddCommand, hstart]
  rcases hw.lookup key with ⟨hnone, helements⟩ | ⟨o, m, ho, hcheck, -⟩ | ⟨s, hs, hcheck, hhll⟩
  · rw [hnone]
    refine hend (n := 1) ?_ (fun h => absurd h (by decide))
    rw [helements, elementRegisters_nil]
    exact represents_createHLLObject
  · rw [ho]
    dsimp only
    rw [hcheck]
    exact ⟨_, rfl, .error m⟩
  · rw [hs]
    dsimp only
    rw [hcheck]
    exact hend hhll.represents fun _ => hs

omit [DecidableEq K] in
theorem mergeKeys_spec (hw : Faithful hash estimate w) (keys : List K) (eles : List Bytes) :
    (∃ m, mergeKeys w.start keys (elementRegisters hash eles) = some (.error (.error m))) ∨
      mergeKeys w.start keys (elementRegisters hash eles)
        = some (.ok (elementRegisters hash (eles ++ keys.flatMap w.elements))) := by
  induction keys generalizing eles with
  | nil => exact .inr (by rw [List.flatMap_nil, List.append_nil]; rfl)
  | cons key keys ih =>
    have hstart : w.start.db key = w.server.db key := rfl
    rw [mergeKeys, hstart, List.flatMap_cons, ← List.append_assoc]
    rcases hw.lookup key with ⟨hnone, helements⟩ | ⟨o, m, ho, hcheck, -⟩ | ⟨s, hs, hcheck, hhll⟩
    · rw [hnone, helements, List.append_nil]
      exact ih eles
    · rw [ho]
      dsimp only
      rw [hcheck]
      exact .inl ⟨m, rfl⟩
    · rw [hs]
      dsimp only
      rw [hcheck]
      dsimp only [Option.bind_eq_bind]
      rw [hllMerge_spec hhll.represents (length_elementRegisters _), Option.bind_some,
        maxRegisters_elementRegisters]
      exact ih _

omit [DecidableEq K] in
theorem mergeKeys_ok (hw : Faithful hash estimate w) {keys : List K} {eles : List Bytes}
    {max : List ℕ} (h : mergeKeys w.start keys (elementRegisters hash eles) = some (.ok max))
    {key : K} (hkey : key ∈ keys) : w.server.db key = none ∨ ∃ s, w.server.db key = some (.string s) ∧
      HllOf hash estimate s (w.elements key) (w.counted key) := by
  induction keys generalizing eles with
  | nil => exact absurd hkey List.not_mem_nil
  | cons key' keys ih =>
    have hstart : w.start.db key' = w.server.db key' := rfl
    rw [mergeKeys, hstart] at h
    rcases hw.lookup key' with ⟨hnone, -⟩ | ⟨o, m, ho, hcheck, -⟩ | ⟨s, hs, hcheck, hhll⟩
    · rw [hnone] at h
      rcases List.mem_cons.mp hkey with rfl | hkey
      · exact .inl hnone
      · exact ih h hkey
    · rw [ho] at h
      dsimp only at h
      rw [hcheck] at h
      cases Option.some_inj.mp h
    · rw [hs] at h
      dsimp only at h
      rw [hcheck] at h
      dsimp only [Option.bind_eq_bind] at h
      rw [hllMerge_spec hhll.represents (length_elementRegisters _), Option.bind_some,
        maxRegisters_elementRegisters] at h
      rcases List.mem_cons.mp hkey with rfl | hkey
      · exact .inr ⟨s, hs, hhll⟩
      · exact ih h hkey

theorem elementRegisters_lt {eles : List Bytes} {r : ℕ} (hr : r ∈ elementRegisters hash eles) :
    r < 64 := by
  obtain ⟨i, -, rfl⟩ := List.mem_map.mp hr
  refine Nat.lt_succ_of_le (elementRegister_le_iff.mpr fun ele _ _ => ?_)
  exact Nat.le_of_lt_succ (hllPatLen_spec hash ele).2.2

omit [DecidableEq K] in
theorem mergeKeys_hlls (hw : Faithful hash estimate w) {keys : List K}
    (hkeys : ∀ key ∈ keys, w.server.db key = none ∨
      ∃ s, w.server.db key = some (.string s) ∧ isHLLObject s = true) (eles : List Bytes) :
    mergeKeys w.start keys (elementRegisters hash eles)
      = some (.ok (elementRegisters hash (eles ++ keys.flatMap w.elements))) := by
  induction keys generalizing eles with
  | nil => rw [List.flatMap_nil, List.append_nil]; rfl
  | cons key keys ih =>
    have hstart : w.start.db key = w.server.db key := rfl
    have ih := ih fun k hk => hkeys k (List.mem_cons_of_mem key hk)
    rw [mergeKeys, hstart, List.flatMap_cons, ← List.append_assoc]
    rcases hkeys key List.mem_cons_self with hnone | ⟨s, hs, hobject⟩
    · rw [hnone, hw.absent key fun s hs => absurd (hnone.symm.trans hs) (by simp), List.append_nil]
      exact ih eles
    · have hcheck : isHLLObjectOrReply (.string s) = .ok s := if_pos hobject
      rw [hs]
      dsimp only
      rw [hcheck]
      dsimp only [Option.bind_eq_bind]
      rw [hllMerge_spec (hw.hll key s hs hobject).represents (length_elementRegisters _),
        Option.bind_some, maxRegisters_elementRegisters]
      exact ih _

theorem pfmergeCommand_ok (hw : Faithful hash estimate w) {dest : K} {srcs : List K}
    (hok : mergeKeys w.start (dest :: srcs) (elementRegisters hash [])
      = some (.ok (elementRegisters hash (w.elements dest ++ srcs.flatMap w.elements)))) :
    ∃ s, pfmergeCommand w.start dest srcs = some ((w.start.setString dest s).touch dest, .ok) ∧
      Represents s (elementRegisters hash (w.elements dest ++ srcs.flatMap w.elements)) ∧
      validCache s = some false := by
  have hempty : emptyRegisters = elementRegisters hash [] := elementRegisters_nil.symm
  rw [pfmergeCommand, hempty]
  set regs := elementRegisters hash (w.elements dest ++ srcs.flatMap w.elements) with hregs
  have hdest : ∃ s regs', Represents s regs' ∧ mergeDestination w.start dest = s := by
    have hstart : w.start.db dest = w.server.db dest := rfl
    rw [mergeDestination, hstart]
    rcases mergeKeys_ok hw hok List.mem_cons_self with hnone | ⟨s, hs, hhll⟩
    · rw [hnone]
      exact ⟨_, _, represents_createHLLObject, rfl⟩
    · rw [hs]
      exact ⟨s, _, hhll.represents, rfl⟩
  obtain ⟨s, regs', hs, hmatch⟩ := hdest
  obtain ⟨d, hdense, hd⟩ := hllSparseToDense_spec hs
  obtain ⟨hdr, hhdr, hblock⟩ := hd.block
  have hlen : regs.length = regs'.length := by
    rw [hregs, length_elementRegisters, hd.count]
  obtain ⟨m, hwrite, hm⟩ := writeRegisters_spec (a := [])
    (fun r hr => elementRegisters_lt hr) hlen hblock
  rw [List.nil_append] at hm
  have hnew : Represents (m.take d.length) regs := by
    refine .dense ⟨hdr, hhdr, ?_⟩
    rw [hblock.length_string, hm.string]
    exact hm
  obtain ⟨s', hinv, hs', hvalid⟩ := invalidateCache_spec hnew
  refine ⟨s', ?_, hs', hvalid⟩
  rw [hok]
  dsimp only [Option.bind_eq_bind, Option.bind_some]
  rw [hmatch, hdense, Option.bind_some]
  dsimp only
  rw [show writeRegisters regs (d ++ [0]) 0 = some m from hwrite, Option.bind_some, hinv]
  rfl

theorem pfmergeCommand_spec (hw : Faithful hash estimate w) (dest : K) (srcs : List K) :
    ∃ r, pfmergeCommand w.start dest srcs = some r ∧
      Modified hash w dest (srcs.flatMap w.elements) r := by
  rcases mergeKeys_spec hw (dest :: srcs) [] with ⟨m, herror⟩ | hok
  · have hempty : emptyRegisters = elementRegisters hash [] := elementRegisters_nil.symm
    rw [pfmergeCommand, hempty, herror]
    exact ⟨_, rfl, .error m⟩
  · rw [List.nil_append, List.flatMap_cons] at hok
    obtain ⟨s, hmerge, hs, hvalid⟩ := pfmergeCommand_ok hw hok
    exact ⟨_, hmerge, .written hs hvalid rfl⟩

theorem longLong_eq {card : ℕ} (h : card < 2 ^ 63) : longLong card = .integer card := by
  have hbmod : ∀ m : ℕ, card < (m + 1) / 2 → Int.bmod card m = card := fun m hm => by
    rw [Int.bmod_def, Int.emod_eq_of_lt (Int.natCast_nonneg card) (by omega), if_pos (by omega)]
  rw [longLong, hbmod (2 ^ 64) (by omega)]

theorem longLong_leVal (card : ℕ) : longLong (leVal (leBytes 8 card)) = longLong card := by
  have hpow : (256 : ℕ) ^ 8 = 2 ^ 64 := by decide
  rw [longLong, longLong, leVal_leBytes, hpow, Int.natCast_mod, Int.emod_bmod]

theorem touch_setString (server : Server K) (key : K) (s : Bytes) :
    ((server.setString key s).touch key).db key = some (.string s) :=
  Function.update_self _ _ _

/-- PFCOUNT of one key that is a HyperLogLog: either the cache is valid and nothing happens, or
the estimate is written to the cache. -/
theorem pfcountSingle_spec {key : K} {s : Bytes} (hs : w.server.db key = some (.string s))
    (hhll : isHLLObject s = true) {eles : List Bytes} {counted : Bool}
    (h : HllOf hash estimate s eles counted) :
    ∃ server, pfcountSingle estimate w.start key
        = some (server, longLong (estimate (elementRegisters hash eles))) ∧
      (validCache s = some true ∧ server = w.start ∨
        validCache s = some false ∧ ∃ s', Represents s' (elementRegisters hash eles) ∧
          CardIs s' (estimate (elementRegisters hash eles)) ∧
          (CardIs s (estimate (elementRegisters hash eles)) → s' = s) ∧
          server = (w.start.setString key s').touch key) := by
  set card := estimate (elementRegisters hash eles) with hcard
  have hstart : w.start.db key = some (.string s) := hs
  have hcheck : isHLLObjectOrReply (.string s) = .ok s := if_pos hhll
  obtain ⟨valid, hvalid⟩ := h.represents.validCache
  rw [pfcountSingle, hstart]
  dsimp only
  rw [hcheck]
  dsimp only [Option.bind_eq_bind]
  rw [hvalid]
  cases valid with
  | true =>
    have hslice : slice s 8 8 = some (leBytes 8 card) := h.cached hvalid
    refine ⟨w.start, ?_, .inl ⟨rfl, rfl⟩⟩
    rw [Option.bind_some, if_pos rfl, hslice, Option.bind_some, longLong_leVal]
  | false =>
    obtain ⟨s', hstore, hs', hslice⟩ := h.represents.store_card (length_leBytes 8 card)
    refine ⟨(w.start.setString key s').touch key, ?_, .inr ⟨rfl, s', hs', hslice, fun hsame => ?_,
      rfl⟩⟩
    · rw [Option.bind_some, if_neg Bool.false_ne_true, hllCountRegisters_spec h.represents,
        Option.bind_some]
      dsimp only
      rw [← hcard, hstore, Option.bind_some]
    · -- The bytes that are written were there before.
      rw [CardIs, slice] at hsame
      split at hsame
      · rename_i hle
        rw [store, length_leBytes, if_pos hle, ← Option.some_inj.mp hsame, List.append_assoc,
          ← List.drop_drop, List.take_append_drop, List.take_append_drop] at hstore
        exact (Option.some_inj.mp hstore).symm
      · cases hsame

theorem Faithful.afterCount (hw : Faithful hash estimate w) (key : K) :
    ∃ r, pfcountCommand estimate w.start key [] = some r ∧
      Faithful hash estimate (w.afterCount key r) := by
  have hsingle : pfcountCommand estimate w.start key [] = pfcountSingle estimate w.start key :=
    if_pos rfl
  rw [hsingle]
  -- The other keys are as they were, and so are all keys if the server is.
  have hsame : ∀ reply, (∀ s, w.server.db key = some (.string s) → isHLLObject s = true →
      reply.succeeded = true → CardIs s (estimate (elementRegisters hash (w.elements key)))) →
      Faithful hash estimate (w.afterCount key (w.start, reply)) := fun reply hcard => by
    refine ⟨fun k s hs hhll => ?_, hw.absent⟩
    have hold := hw.hll k s hs hhll
    refine ⟨hold.represents, hold.cached, fun hcounted => ?_⟩
    cases hreply : reply.succeeded with
    | false =>
      have hnot : (w.afterCount key (w.start, reply)).counted = w.counted :=
        if_neg (by rw [hreply]; decide)
      rw [hnot] at hcounted
      exact hold.counted hcounted
    | true =>
      have hnow : (w.afterCount key (w.start, reply)).counted = Function.update w.counted key true :=
        if_pos hreply
      rw [hnow] at hcounted
      by_cases hk : k = key
      · subst hk
        exact hcard s hs hhll hreply
      · rw [Function.update_of_ne hk] at hcounted
        exact hold.counted hcounted
  rcases hw.lookup key with ⟨hnone, -⟩ | ⟨o, m, ho, hcheck, -⟩ | ⟨s, hs, hcheck, hhll⟩
  · have hstart : w.start.db key = none := hnone
    refine ⟨(w.start, .integer 0), ?_, hsame _ fun _ hs => absurd (hnone.symm.trans hs) (by simp)⟩
    rw [pfcountSingle, hstart]
  · have hstart : w.start.db key = some o := ho
    refine ⟨(w.start, .error m), ?_, hsame _ fun _ _ _ hreply => absurd hreply (by simp
      [Reply.succeeded])⟩
    rw [pfcountSingle, hstart]
    dsimp only
    rw [hcheck]
  · have hobject := hhll.represents.isHLLObject
    obtain ⟨server, hcount, hcases⟩ := pfcountSingle_spec hs hobject hhll
    refine ⟨_, hcount, ?_⟩
    rcases hcases with ⟨hvalid, rfl⟩ | ⟨-, s', hs', hcard, -, rfl⟩
    · refine hsame _ fun s' hs' _ _ => ?_
      obtain rfl : s = s' := Value.string.inj (Option.some_inj.mp (hs.symm.trans hs'))
      exact hhll.cached hvalid
    · refine ⟨fun k t hk hobj => ?_, fun k hk => hw.absent k fun t ht => ?_⟩
      · have hdb : Function.update w.server.db key (some (.string s')) k = some (.string t) := hk
        show HllOf hash estimate t (w.elements k) (Function.update w.counted key true k)
        by_cases hkk : k = key
        · subst hkk
          rw [Function.update_self] at hdb
          obtain rfl : s' = t := Value.string.inj (Option.some_inj.mp hdb)
          exact ⟨hs', fun _ => hcard, fun _ => hcard⟩
        · rw [Function.update_of_ne hkk] at hdb ⊢
          exact hw.hll k t hdb hobj
      · by_cases hkk : k = key
        · subst hkk
          exact absurd ((hk s' (Function.update_self _ _ _)).symm.trans hs'.isHLLObject) (by decide)
        · refine hk t ?_
          show Function.update w.server.db key (some (.string s')) k = some (.string t)
          rw [Function.update_of_ne hkk]
          exact ht

theorem pfcountCommand_several (hw : Faithful hash estimate w) (key key' : K) (keys : List K) :
    (∃ m, pfcountCommand estimate w.start key (key' :: keys) = some (w.start, .error m)) ∨
      pfcountCommand estimate w.start key (key' :: keys) = some (w.start, longLong (estimate
        (elementRegisters hash ((key :: key' :: keys).flatMap w.elements)))) := by
  have hempty : emptyRegisters = elementRegisters hash [] := elementRegisters_nil.symm
  rw [pfcountCommand, if_neg (List.cons_ne_nil _ _), hempty]
  rcases mergeKeys_spec hw (key :: key' :: keys) [] with ⟨m, herror⟩ | hok
  · rw [herror]
    exact .inl ⟨m, rfl⟩
  · rw [hok]
    exact .inr rfl

theorem Faithful.step (hw : Faithful hash estimate w) (junk : ℕ → UInt8) (maxBytes : ℕ)
    (c : PfCommand K) :
    ∃ w', pfStep hash junk maxBytes estimate w c = some w' ∧ Faithful hash estimate w' := by
  cases c with
  | pfadd key eles =>
    obtain ⟨r, hadd, hr⟩ := pfaddCommand_spec hw junk maxBytes key eles
    exact ⟨_, by rw [pfStep, hadd]; rfl, hw.modified hr⟩
  | pfcount key keys =>
    cases keys with
    | nil =>
      obtain ⟨r, hcount, hr⟩ := hw.afterCount key
      exact ⟨_, by rw [pfStep, hcount]; rfl, hr⟩
    | cons key' keys =>
      rcases pfcountCommand_several hw key key' keys with ⟨m, hcount⟩ | hcount
      · exact ⟨{ w with server := w.start }, by rw [pfStep, hcount]; rfl, ⟨hw.hll, hw.absent⟩⟩
      · exact ⟨{ w with server := w.start }, by rw [pfStep, hcount]; rfl, ⟨hw.hll, hw.absent⟩⟩
  | pfmerge dest srcs =>
    obtain ⟨r, hmerge, hr⟩ := pfmergeCommand_spec hw dest srcs
    exact ⟨_, by rw [pfStep, hmerge]; rfl, hw.modified hr⟩

omit [DecidableEq K] in
theorem Faithful.begin {server : Server K}
    (hserver : ∀ key s, server.db key = some (.string s) → isHLLObject s = false) :
    Faithful hash estimate (pfBegin server) :=
  ⟨fun key s hs hhll => absurd ((hserver key s hs).symm.trans hhll) (by decide), fun _ _ => rfl⟩

theorem Faithful.run {junk : ℕ → UInt8} {maxBytes : ℕ} {server : Server K}
    (hserver : ∀ key s, server.db key = some (.string s) → isHLLObject s = false)
    {es : List (PfCommand K)}
    (hrun : Runs.run (pfStep hash junk maxBytes estimate) (pfBegin server) es = some w) :
    Faithful hash estimate w := by
  refine Runs.run_invariant (I := Faithful hash estimate) (fun w c w' hw hstep => ?_)
    (Faithful.begin hserver) hrun
  obtain ⟨w₁, hstep₁, hw₁⟩ := hw.step junk maxBytes c
  obtain rfl := Option.some_inj.mp (hstep₁.symm.trans hstep)
  exact hw₁

theorem Faithful.pfcount (hestimate : ∀ regs, estimate regs < 2 ^ 63)
    (hw : Faithful hash estimate w) {key : K} {s : Bytes}
    (hs : w.server.db key = some (.string s)) (hhll : isHLLObject s = true) :
    ∃ regs server, hllCountRegisters s = some (some regs) ∧
      pfcountCommand estimate w.start key [] = some (server, .integer (estimate regs)) ∧
      (w.counted key = true → server.db = w.server.db ∧
        (server.dirty = w.server.dirty ↔ estimate regs % 256 < 128)) := by
  have h := hw.hll key s hs hhll
  obtain ⟨server, hcount, hcases⟩ := pfcountSingle_spec hs hhll h
  rw [longLong_eq (hestimate _)] at hcount
  refine ⟨_, server, hllCountRegisters_spec h.represents, (if_pos rfl).trans hcount,
    fun hcounted => ?_⟩
  have hcard := h.counted hcounted
  have hvalid := validCache_of_card hcard
  rcases hcases with ⟨hv, rfl⟩ | ⟨hv, s', -, -, hsame, rfl⟩
  · have hlow := of_decide_eq_true (Option.some_inj.mp (hvalid.symm.trans hv))
    exact ⟨rfl, iff_of_true rfl hlow⟩
  · have hhigh := of_decide_eq_false (Option.some_inj.mp (hvalid.symm.trans hv))
    obtain rfl := hsame hcard
    rw [setString_same (show w.start.db key = _ from hs)]
    exact ⟨rfl, iff_of_false (Nat.succ_ne_self _) hhigh⟩

end

end

/-! ### Results -/

/-- A server without keys. -/
def emptyServer : Server ℕ := ⟨fun _ => none, 0, []⟩

/-- Another hash function, which is easy to evaluate. -/
def valueHash (ele : Bytes) : BitVec 64 := BitVec.ofNat 64 (leVal ele)

theorem pfadd_emptyServer (estimate : List ℕ → ℕ) : ∃ (w : PfState ℕ) (s : Bytes),
    pfStep valueHash noJunk 3000 estimate (pfBegin emptyServer) (.pfadd 0 [[97]]) = some w ∧
    Faithful valueHash estimate w ∧ w.server.db 0 = some (.string s) ∧ isHLLObject s = true := by
  have hbegin : Faithful valueHash estimate (pfBegin emptyServer) :=
    Faithful.begin fun key s hs => absurd hs.symm (Option.some_ne_none _)
  obtain ⟨r, hadd, hr⟩ := pfaddCommand_spec hbegin noJunk 3000 0 [[97]]
  have hreply : (pfaddCommand valueHash noJunk 3000 (pfBegin emptyServer).start 0 [[97]]).map
      (fun r => r.2.succeeded) = some true := by decide +kernel
  obtain ⟨s, hs, hhll⟩ : ∃ s, r.1.db 0 = some (.string s) ∧ isHLLObject s = true := by
    cases hr with
    | error m =>
      rw [hadd] at hreply
      exact absurd (Option.some_inj.mp hreply) Bool.false_ne_true
    | same hkey => exact absurd hkey.symm (Option.some_ne_none _)
    | @written s _ hs => exact ⟨s, touch_setString _ _ _, hs.isHLLObject⟩
  exact ⟨_, s, by rw [pfStep, hadd]; rfl, hbegin.modified hr, hs, hhll⟩

/-- After any elements were added to an empty HyperLogLog, its registers are the largest counts of
the elements, and if it is sparse these are the runs of well-formed opcodes.  Adding another one
tells whether a register changes, and a string that stays sparse grows by at most three bytes. -/
theorem hllAdd_elements (hash : Bytes → BitVec 64) (junk : ℕ → UInt8) (maxBytes : ℕ)
    (eles : List Bytes) :
    ∃ s, hllAddAll hash junk maxBytes eles = some s ∧
      hllCountRegisters s = some (some (elementRegisters hash eles)) ∧
      (s[4]? = some hllSparse →
        ∃ ops, Sparse s ops ∧ opcodeRegisters ops = elementRegisters hash eles) ∧
      ∀ ele, ∃ s' retval, hllAdd hash junk maxBytes s ele = some (s', retval) ∧
        (retval = if elementRegisters hash (eles ++ [ele]) = elementRegisters hash eles then 0
          else 1) ∧
        (s'[4]? = some hllSparse → s'.length ≤ s.length + 3) := by
  obtain ⟨s, hs, hrep⟩ := hllAddAll_spec hash junk maxBytes eles
  refine ⟨s, hs, hllCountRegisters_spec hrep, hrep.sparse_opcodes, fun ele => ?_⟩
  obtain ⟨s', retval, hadd, -, hgrow, hretval⟩ :=
    hllAdd_elementRegisters hash junk maxBytes hrep ele
  refine ⟨s', retval, hadd, ?_, hgrow⟩
  rcases hretval with ⟨rfl, -, hsame⟩ | ⟨rfl, hne⟩
  · rw [if_pos hsame]
  · rw [if_neg hne]

/-- In every reachable state PFMERGE leaves the registers of an empty HyperLogLog to which all
elements of the destination and of the sources were added in the destination, PFCOUNT of several
keys replies with the estimate of the registers of all their elements, and these registers depend
on the set of the elements only. -/
theorem pfmerge_union {K : Type} [DecidableEq K] (hash : Bytes → BitVec 64) (junk : ℕ → UInt8)
    (maxBytes : ℕ) {estimate : List ℕ → ℕ} {server : Server K}
    (hserver : ∀ key s, server.db key = some (.string s) → isHLLObject s = false)
    {es : List (PfCommand K)} {w : PfState K}
    (hrun : Runs.run (pfStep hash junk maxBytes estimate) (pfBegin server) es = some w) :
    (∀ dest srcs, (∀ key ∈ dest :: srcs, w.server.db key = none ∨
        ∃ s, w.server.db key = some (.string s) ∧ isHLLObject s = true) →
      ∃ w' s t, pfmergeCommand w.start dest srcs = some (w', .ok) ∧
        w'.db dest = some (.string s) ∧
        hllAddAll hash junk maxBytes (w.elements dest ++ srcs.flatMap w.elements) = some t ∧
        hllCountRegisters s = hllCountRegisters t ∧
        hllCountRegisters t = some (some (elementRegisters hash
          (w.elements dest ++ srcs.flatMap w.elements)))) ∧
    (∀ key key' keys, (∀ k ∈ key :: key' :: keys, w.server.db k = none ∨
        ∃ s, w.server.db k = some (.string s) ∧ isHLLObject s = true) →
      pfcountCommand estimate w.start key (key' :: keys) = some (w.start, longLong (estimate
        (elementRegisters hash ((key :: key' :: keys).flatMap w.elements))))) ∧
    ∀ a b : List Bytes, (∀ ele, ele ∈ a ↔ ele ∈ b) →
      elementRegisters hash a = elementRegisters hash b := by
  have hw : Faithful hash estimate w := Faithful.run hserver hrun
  refine ⟨fun dest srcs hkeys => ?_, fun key key' keys hkeys => ?_,
    fun a b h => elementRegisters_congr h⟩
  · have hok := mergeKeys_hlls hw hkeys []
    rw [List.nil_append, List.flatMap_cons] at hok
    obtain ⟨s, hmerge, hs, -⟩ := pfmergeCommand_ok hw hok
    obtain ⟨t, ht, hrep⟩ := hllAddAll_spec hash junk maxBytes
      (w.elements dest ++ srcs.flatMap w.elements)
    refine ⟨_, s, t, hmerge, touch_setString _ _ _, ht, ?_, hllCountRegisters_spec hrep⟩
    rw [hllCountRegisters_spec hs, hllCountRegisters_spec hrep]
  · have hok := mergeKeys_hlls hw hkeys []
    rw [List.nil_append] at hok
    have hempty : emptyRegisters = elementRegisters hash [] := elementRegisters_nil.symm
    rw [pfcountCommand, if_neg (List.cons_ne_nil _ _), hempty, hok]
    rfl

theorem pfmerge_union_self : ∃ (w : PfState ℕ) (w' : Server ℕ) (s t : Bytes),
    Runs.run (pfStep valueHash noJunk 3000 fun _ => 1) (pfBegin emptyServer) [.pfadd 0 [[97]]]
      = some w ∧
    pfmergeCommand w.start 0 [0] = some (w', .ok) ∧ w'.db 0 = some (.string s) ∧
    hllAddAll valueHash noJunk 3000 (w.elements 0 ++ [0].flatMap w.elements) = some t ∧
    hllCountRegisters s = hllCountRegisters t := by
  have hserver : ∀ key s, emptyServer.db key = some (.string s) → isHLLObject s = false :=
    fun key s hs => absurd hs.symm (Option.some_ne_none _)
  obtain ⟨w, s₀, hstep, -, hs₀, hhll⟩ := pfadd_emptyServer fun _ => 1
  have hrun : Runs.run (pfStep valueHash noJunk 3000 fun _ => 1) (pfBegin emptyServer)
      [.pfadd 0 [[97]]] = some w := Runs.run_cons_of_step hstep rfl
  obtain ⟨hmerge, -, -⟩ := pfmerge_union valueHash noJunk 3000 hserver hrun
  obtain ⟨w', s, t, hok, hs, ht, hsame, -⟩ := hmerge 0 [0] fun key hkey => by
    obtain rfl : key = 0 := by simpa using hkey
    exact .inr ⟨s₀, hs₀, hhll⟩
  exact ⟨w, w', s, t, hrun, hok, hs, ht, hsame⟩

end Hyperloglog

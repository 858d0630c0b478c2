/-
The dense representation of HyperLogLogs, and what a HyperLogLog represents.

* `DenseBlock` — the packed registers in memory, with the zero byte behind them;
* `Represents` — a string, in one of the two representations, holds 16384 registers;
* `hllSparseToDense_spec`, `hllAdd_spec`, `hllMerge_spec`, `hllCountRegisters_spec` — the
  operations on represented registers.
-/
import RedisModel.HyperloglogSparse

open ByteBuffer PackedFields

namespace Hyperloglog

/-- The memory of a string in the dense representation. -/
structure DenseBlock (m hdr : Bytes) (regs : List ℕ) : Prop where
  length : m.length = hllDenseSize + 1
  header : m.take hllHdrSize = hdr
  terminator : m[hllDenseSize]? = some 0
  count : regs.length = hllRegisters
  packed : ∀ i < hllRegisters, denseGetRegister m i = regs[i]?

theorem denseSetRegister_spec {m hdr : Bytes} {regs : List ℕ} (h : DenseBlock m hdr regs) {i v : ℕ}
    (hi : i < hllRegisters) (hv : v < 64) :
    ∃ m', denseSetRegister m i v = some m' ∧ DenseBlock m' hdr (regs.set i v) := by
  have hi' : i < 16384 := hi
  have hin : hllHdrSize + i * hllBits / 8 + 1 < m.length := by
    rw [h.length]
    show 16 + i * 6 / 8 + 1 < 12305
    omega
  have hv' : v < 2 ^ hllBits := hv
  obtain ⟨m', hset, hlen, htake, hbits⟩ := setField_spec (show hllBits ≤ 8 by decide) hv' hin
  refine ⟨m', hset, ⟨hlen.trans h.length, htake.trans h.header, ?_, ?_, fun j hj => ?_⟩⟩
  · refine (getElem?_eq_of_bitAt hlen (q := 12288) fun r hr => ?_).trans h.terminator
    -- The last register ends before the zero byte.
    rw [hbits, if_neg]
    show ¬ (i * 6 ≤ 8 * 12288 + r ∧ 8 * 12288 + r < i * 6 + 6)
    omega
  · rw [List.length_set, h.count]
  · by_cases hij : j = i
    · rw [hij, denseGetRegister, getField_setField_self (by decide) hv' hin hset,
        List.getElem?_set_self (by rw [h.count]; exact hi)]
    · rw [List.getElem?_set_ne fun heq => hij heq.symm, ← h.packed j hj]
      exact getField_setField_ne (by decide) hv' hin hij hset

theorem denseSetRun_spec {hdr : Bytes} {v : ℕ} (hv : v < 64) {a b c : List ℕ} {m : Bytes}
    (h : DenseBlock m hdr (a ++ (b ++ c))) :
    ∃ m', denseSetRun v b.length m a.length = some m' ∧
      DenseBlock m' hdr (a ++ (List.replicate b.length v ++ c)) := by
  induction b generalizing a m with
  | nil => exact ⟨m, rfl, h⟩
  | cons x b ih =>
    have hi : a.length < hllRegisters := by
      rw [← h.count, List.length_append, List.length_append, List.length_cons]
      omega
    obtain ⟨m₁, hset, h₁⟩ := denseSetRegister_spec h hi hv
    have hregs : (a ++ (x :: b ++ c)).set a.length v = (a ++ [v]) ++ (b ++ c) := by
      rw [List.set_append_right _ _ (Nat.le_refl _), Nat.sub_self, List.append_assoc]
      rfl
    rw [hregs] at h₁
    obtain ⟨m', hrun, h'⟩ := ih h₁
    refine ⟨m', ?_, ?_⟩
    · rw [List.length_cons, denseSetRun, hset]
      dsimp only [Option.bind_eq_bind, Option.bind_some]
      rw [List.length_append] at hrun
      exact hrun
    · rw [List.append_assoc] at h'
      rw [List.length_cons, List.replicate_succ]
      exact h'

theorem writeRegisters_spec {hdr : Bytes} {a b regs : List ℕ} (hregs : ∀ r ∈ regs, r < 64)
    (hlen : regs.length = b.length) {m : Bytes} (h : DenseBlock m hdr (a ++ b)) :
    ∃ m', writeRegisters regs m a.length = some m' ∧ DenseBlock m' hdr (a ++ regs) := by
  induction regs generalizing a b m with
  | nil =>
    rw [List.length_nil] at hlen
    rw [List.length_eq_zero_iff.mp hlen.symm] at h
    exact ⟨m, rfl, h⟩
  | cons r regs ih =>
    obtain ⟨hr, hregs⟩ := List.forall_mem_cons.mp hregs
    cases b with
    | nil => cases hlen
    | cons x b =>
      have hi : a.length < hllRegisters := by
        rw [← h.count, List.length_append, List.length_cons]
        omega
      obtain ⟨m₁, hset, h₁⟩ := denseSetRegister_spec h hi hr
      have hsplit : (a ++ x :: b).set a.length r = (a ++ [r]) ++ b := by
        rw [List.set_append_right _ _ (Nat.le_refl _), Nat.sub_self, List.append_assoc]
        rfl
      rw [hsplit] at h₁
      obtain ⟨m', hrun, h'⟩ := ih hregs (Nat.succ.inj hlen) h₁
      refine ⟨m', ?_, ?_⟩
      · rw [writeRegisters, hset]
        dsimp only [Option.bind_eq_bind, Option.bind_some]
        rw [List.length_append] at hrun
        exact hrun
      · rw [List.append_assoc] at h'
        exact h'

/-- A string in the dense representation. -/
structure Dense (s : Bytes) (regs : List ℕ) : Prop where
  block : ∃ hdr, Header hdr hllDense ∧ DenseBlock (s ++ [0]) hdr regs

theorem DenseBlock.string {m hdr : Bytes} {regs : List ℕ} (h : DenseBlock m hdr regs) :
    m.take hllDenseSize ++ [0] = m := by
  have hlt : hllDenseSize < m.length := by rw [h.length]; exact Nat.lt_succ_self _
  have hlast : m.drop hllDenseSize = [0] := by
    rw [List.drop_eq_getElem_cons hlt, List.drop_eq_nil_of_le (by rw [h.length])]
    congr 1
    exact Option.some_inj.mp ((List.getElem?_eq_getElem hlt).symm.trans h.terminator)
  rw [← hlast, List.take_append_drop]

theorem DenseBlock.length_string {s hdr : Bytes} {regs : List ℕ} (h : DenseBlock (s ++ [0]) hdr regs) :
    s.length = hllDenseSize := by
  have hlen := h.length
  rw [List.length_append, List.length_singleton] at hlen
  exact Nat.succ.inj hlen

/-- The registers as a string holds them. -/
inductive Represents : Bytes → List ℕ → Prop where
  | sparse {s : Bytes} {ops : List Opcode} : Sparse s ops → Represents s (opcodeRegisters ops)
  | dense {s : Bytes} {regs : List ℕ} : Dense s regs → Represents s regs

/-! ### Conversion -/

theorem intAdd_eq {a b : ℕ} (h : a + b ≤ hllRegisters) : intAdd a b = a + b :=
  Nat.mod_eq_of_lt (Nat.lt_of_le_of_lt h (by decide))

theorem toDense_fold {hdr : Bytes} {ops : List Opcode} (hops : ∀ op ∈ ops, op.Valid) {a : List ℕ}
    {m : Bytes} (h : DenseBlock m hdr (a ++ List.replicate (opcodeRegisters ops).length 0)) :
    ∃ m', ops.foldlM toDenseStep (m, a.length)
        = some (m', a.length + (opcodeRegisters ops).length) ∧
      DenseBlock m' hdr (a ++ opcodeRegisters ops) := by
  induction ops generalizing a m with
  | nil => exact ⟨m, rfl, h⟩
  | cons op ops ih =>
    obtain ⟨hop, hops⟩ := List.forall_mem_cons.mp hops
    rw [opcodeRegisters_cons, List.length_append, Opcode.length_registers] at h ⊢
    rw [← List.replicate_append_replicate] at h
    have hidx : intAdd a.length op.len = a.length + op.len := intAdd_eq (by
      rw [← h.count, List.length_append, List.length_append, List.length_replicate]
      omega)
    -- A run of zeroes is there already, the others are written.
    have hstep : ∃ m₁, toDenseStep (m, a.length) op = some (m₁, a.length + op.len) ∧
        DenseBlock m₁ hdr (a ++ (op.registers ++ List.replicate (opcodeRegisters ops).length 0)) := by
      rw [← hidx]
      cases op with
      | zero n => exact ⟨m, rfl, h⟩
      | xzero n => exact ⟨m, rfl, h⟩
      | val v n =>
        have hv : v < 64 := Nat.lt_of_le_of_lt hop.1.2 (by decide)
        obtain ⟨m₁, hrun, h₁⟩ := denseSetRun_spec hv h
        rw [List.length_replicate] at hrun h₁
        refine ⟨m₁, ?_, h₁⟩
        show (denseSetRun v n m a.length).bind _ = _
        rw [show denseSetRun v n m a.length = some m₁ from hrun]
        rfl
    obtain ⟨m₁, hone, h₁⟩ := hstep
    rw [← List.append_assoc] at h₁
    obtain ⟨m', hfold, h'⟩ := ih hops h₁
    refine ⟨m', ?_, by rwa [List.append_assoc] at h'⟩
    rw [List.foldlM_cons, hone]
    dsimp only [Option.bind_eq_bind, Option.bind_some]
    rw [List.length_append, Opcode.length_registers] at hfold
    rw [hfold, Nat.add_assoc]

theorem Header.set_encoding {hdr : Bytes} {encoding : UInt8} (h : Header hdr encoding)
    (b : UInt8) : Header (hdr.set 4 b) b := by
  have hlt : 4 < hdr.length := by rw [h.length]; decide
  refine ⟨by rw [List.length_set, h.length], ?_, List.getElem?_set_self hlt⟩
  rw [List.take_set_of_le (Nat.le_refl _), h.magic]

theorem Header.encoding_append {hdr : Bytes} {encoding : UInt8} (h : Header hdr encoding)
    (body : Bytes) : (hdr ++ body)[4]? = some encoding := by
  rw [List.getElem?_append_left (by rw [h.length]; decide), h.encoding]

theorem denseBlock_zero {hdr : Bytes} (hlen : hdr.length = hllHdrSize) :
    DenseBlock (hdr ++ List.replicate denseBytes 0 ++ [0]) hdr (List.replicate hllRegisters 0) := by
  have hzero : hdr ++ List.replicate denseBytes (0 : UInt8) ++ [0]
      = hdr ++ List.replicate (denseBytes + 1) 0 := by
    rw [List.replicate_succ', List.append_assoc]
  have hget : ∀ q ≤ denseBytes, (hdr ++ List.replicate (denseBytes + 1) (0 : UInt8))[hllHdrSize + q]?
      = some 0 := fun q hq => by
    rw [List.getElem?_append_right (by rw [hlen]; exact Nat.le_add_right _ _), hlen,
      Nat.add_sub_cancel_left, List.getElem?_replicate, if_pos (Nat.lt_succ_of_le hq)]
  rw [hzero]
  refine ⟨?_, List.take_left' hlen, hget denseBytes (Nat.le_refl _), List.length_replicate,
    fun i hi => ?_⟩
  · rw [List.length_append, hlen, List.length_replicate]
    rfl
  · have hi' : i < 16384 := hi
    have hbyte : i * hllBits / 8 + 1 ≤ denseBytes := by
      show i * 6 / 8 + 1 ≤ 12288
      omega
    rw [denseGetRegister, getField, hget _ (by omega), Nat.add_assoc, hget _ hbyte,
      List.getElem?_replicate, if_pos hi]
    dsimp only [Option.bind_eq_bind, Option.bind_some]
    simp

theorem hllSparseToDense_sparse {s : Bytes} {ops : List Opcode} (h : Sparse s ops) :
    ∃ d, hllSparseToDense s = some (some d) ∧ Dense d (opcodeRegisters ops) := by
  obtain ⟨⟨hdr, hhdr, rfl⟩, hvalid, hregs⟩ := h
  have hhdr' := hhdr.set_encoding hllDense
  have hstart := denseBlock_zero hhdr'.length
  rw [← hregs] at hstart
  obtain ⟨m, hfold, hm⟩ := toDense_fold (a := []) hvalid hstart
  have hslice : slice (hdr ++ opcodeBytes ops) 0 hllHdrSize = some hdr := by
    have hmid := slice_append (a := []) (b := hdr) (c := opcodeBytes ops) rfl hhdr.length.symm
    rwa [List.nil_append] at hmid
  refine ⟨m.take hllDenseSize, ?_, ⟨_, hhdr', hm.string.symm ▸ hm⟩⟩
  rw [hllSparseToDense, hhdr.encoding_append]
  dsimp only [Option.bind_eq_bind, Option.bind_some]
  rw [if_neg (by decide), hslice, Option.bind_some, sparseScan_eq _ hvalid hhdr.length]
  rw [List.length_nil, Nat.zero_add] at hfold
  rw [hfold, Option.bind_some]
  dsimp only
  rw [hregs, if_neg (fun hne => hne rfl)]

theorem hllSparseToDense_spec {s : Bytes} {regs : List ℕ} (h : Represents s regs) :
    ∃ d, hllSparseToDense s = some (some d) ∧ Dense d regs := by
  cases h with
  | sparse h => exact hllSparseToDense_sparse h
  | dense h =>
    obtain ⟨hdr, hhdr, hblock⟩ := h.block
    refine ⟨s, ?_, h⟩
    have hencoding : s[4]? = some hllDense := by
      have hall : (s ++ [0])[4]? = some hllDense := by
        rw [← hhdr.encoding, ← hblock.header, List.getElem?_take_of_lt (by decide)]
      rwa [List.getElem?_append_left (by rw [hblock.length_string]; decide)] at hall
    rw [hllSparseToDense, hencoding]
    rfl

/-! ### Adding an element -/

theorem Dense.encoding {s : Bytes} {regs : List ℕ} (h : Dense s regs) :
    s.length = hllDenseSize ∧ s.take 4 = magic ∧ s[4]? = some hllDense := by
  obtain ⟨hdr, hhdr, hblock⟩ := h.block
  have hlen := hblock.length_string
  have hshort : (4 : ℕ) < s.length := by rw [hlen]; decide
  refine ⟨hlen, ?_, ?_⟩
  · have hmin : min 4 hllHdrSize = 4 := rfl
    rw [← hhdr.magic, ← hblock.header, List.take_take, hmin,
      List.take_append_of_le_length hshort.le]
  · rw [← hhdr.encoding, ← hblock.header, List.getElem?_take_of_lt (by decide),
      List.getElem?_append_left hshort]

theorem Dense.not_sparse {s : Bytes} {regs : List ℕ} (h : Dense s regs) {p : Prop}
    (hsparse : s[4]? = some hllSparse) : p :=
  absurd (h.encoding.2.2.symm.trans hsparse) (by decide)

theorem Dense.count {s : Bytes} {regs : List ℕ} (h : Dense s regs) : regs.length = hllRegisters := by
  obtain ⟨hdr, -, hblock⟩ := h.block
  exact hblock.count

theorem Dense.get {s : Bytes} {regs : List ℕ} (h : Dense s regs) {i : ℕ} (hi : i < hllRegisters) :
    denseGetRegister (s ++ [0]) i = regs[i]? := by
  obtain ⟨hdr, -, hblock⟩ := h.block
  exact hblock.packed i hi

theorem le_of_mem_opcodeRegisters {ops : List Opcode} (hops : ∀ op ∈ ops, op.Valid) {r : ℕ}
    (hr : r ∈ opcodeRegisters ops) : r ≤ valMaxValue := by
  obtain ⟨op, hop, hr⟩ := List.mem_flatMap.mp hr
  rw [(List.mem_replicate.mp hr).2]
  cases op with
  | zero n => exact Nat.zero_le _
  | xzero n => exact Nat.zero_le _
  | val v n => exact (hops _ hop).1.2

theorem hllDenseAdd_spec {s : Bytes} {regs : List ℕ} (h : Dense s regs) {index count old : ℕ}
    (hcount : count < 64) (hold : regs[index]? = some old) :
    (count ≤ old → hllDenseAdd s index count = some (s, 0)) ∧
      (old < count → ∃ s', hllDenseAdd s index count = some (s', 1) ∧
        Dense s' (regs.set index count)) := by
  have hindex : index < hllRegisters := by
    rw [← h.count]
    exact (List.getElem?_eq_some_iff.mp hold).1
  have hget := (h.get hindex).trans hold
  constructor
  · intro hle
    rw [hllDenseAdd, hget]
    dsimp only [Option.bind_eq_bind, Option.bind_some]
    rw [if_neg (Nat.not_lt.mpr hle)]
  · intro hlt
    obtain ⟨hdr, hhdr, hblock⟩ := h.block
    obtain ⟨m, hset, hm⟩ := denseSetRegister_spec hblock hindex hcount
    refine ⟨m.take s.length, ?_, ⟨hdr, hhdr, ?_⟩⟩
    · rw [hllDenseAdd, hget]
      dsimp only [Option.bind_eq_bind, Option.bind_some]
      rw [if_pos hlt, hset]
      rfl
    · rw [hblock.length_string, hm.string]
      exact hm

theorem promote_spec {s : Bytes} {ops : List Opcode} (h : Sparse s ops) {index count old : ℕ}
    (hcount : count < 64) (hold : (opcodeRegisters ops)[index]? = some old) (hlt : old < count) :
    ∃ s', promote s index count = some (s', 1) ∧ Dense s' ((opcodeRegisters ops).set index count) := by
  obtain ⟨d, hdense, hd⟩ := hllSparseToDense_sparse h
  obtain ⟨s', hadd, hs'⟩ := (hllDenseAdd_spec hd hcount hold).2 hlt
  refine ⟨s', ?_, hs'⟩
  rw [promote, hdense]
  dsimp only [Option.bind_eq_bind, Option.bind_some]
  rw [hadd]
  rfl

/-! ### Counts of elements -/

theorem patLenLoop_le (hash bit : BitVec 64) (fuel count : ℕ) :
    count ≤ patLenLoop hash fuel bit count ∧ patLenLoop hash fuel bit count ≤ count + fuel := by
  induction fuel generalizing bit count with
  | zero => exact ⟨Nat.le_refl _, Nat.le_refl _⟩
  | succ fuel ih =>
    rw [patLenLoop]
    split
    · obtain ⟨hlow, hhigh⟩ := ih (bit <<< 1) (count + 1)
      omega
    · omega

theorem hllPatLen_spec (hash : Bytes → BitVec 64) (ele : Bytes) :
    (hllPatLen hash ele).1 < hllRegisters ∧ 0 < (hllPatLen hash ele).2 ∧
      (hllPatLen hash ele).2 < 64 := by
  obtain ⟨hlow, hhigh⟩ := patLenLoop_le (hash ele ||| 1#64 <<< 63) (1#64 <<< 14) 50 1
  refine ⟨Nat.lt_of_le_of_lt Nat.and_le_right (by decide), hlow, ?_⟩
  exact Nat.lt_of_le_of_lt hhigh (by decide)

theorem hllAdd_spec (hash : Bytes → BitVec 64) (junk : ℕ → UInt8) (maxBytes : ℕ) {s : Bytes}
    {regs : List ℕ} (h : Represents s regs) (ele : Bytes) {old : ℕ}
    (hold : regs[(hllPatLen hash ele).1]? = some old) :
    ((hllPatLen hash ele).2 ≤ old → hllAdd hash junk maxBytes s ele = some (s, 0)) ∧
      (old < (hllPatLen hash ele).2 → ∃ s', hllAdd hash junk maxBytes s ele = some (s', 1) ∧
        Represents s' (regs.set (hllPatLen hash ele).1 (hllPatLen hash ele).2) ∧
        (s'[4]? = some hllSparse → s'.length ≤ s.length + 3)) := by
  obtain ⟨-, hpos, hcount⟩ := hllPatLen_spec hash ele
  rw [hllAdd]
  generalize hllPatLen hash ele = e at hold hpos hcount ⊢
  obtain ⟨index, count⟩ := e
  dsimp only at hold hpos hcount ⊢
  cases h with
  | dense h =>
    rw [h.encoding.2.2]
    dsimp only [Option.bind_eq_bind, Option.bind_some]
    rw [if_pos rfl]
    obtain ⟨hsame, hset⟩ := hllDenseAdd_spec h hcount hold
    refine ⟨hsame, fun hlt => ?_⟩
    obtain ⟨s', hadd, hs'⟩ := hset hlt
    exact ⟨s', hadd, .dense hs', hs'.not_sparse⟩
  | @sparse ops h =>
    obtain ⟨hdr, hhdr, hsplit⟩ := h.split
    rw [hsplit, hhdr.encoding_append, ← hsplit]
    dsimp only [Option.bind_eq_bind, Option.bind_some]
    rw [if_neg (by decide), if_pos rfl]
    by_cases hmax : count ≤ valMaxValue
    · obtain ⟨hsame, hset⟩ := hllSparseAdd_spec junk maxBytes h hpos hmax hold
      refine ⟨hsame, fun hlt => ?_⟩
      rcases hset hlt with ⟨s', ops', hadd, hs', hregs, hle⟩ | hpromote
      · exact ⟨s', hadd, hregs ▸ .sparse hs', fun _ => hle⟩
      · obtain ⟨s', hadd, hs'⟩ := promote_spec h hcount hold hlt
        exact ⟨s', hpromote.trans hadd, .dense hs', hs'.not_sparse⟩
    · have hlt : old < count := by
        have hle := le_of_mem_opcodeRegisters h.valid (List.mem_of_getElem? hold)
        omega
      refine ⟨fun hle => absurd hlt (Nat.not_lt.mpr hle), fun _ => ?_⟩
      obtain ⟨s', hadd, hs'⟩ := promote_spec h hcount hold hlt
      refine ⟨s', ?_, .dense hs', hs'.not_sparse⟩
      rw [hllSparseAdd, if_pos (Nat.lt_of_not_le hmax), hadd]

/-! ### Reading all registers -/

theorem mapM_range' {f : ℕ → Option ℕ} {a b : List ℕ}
    (hf : ∀ i < (a ++ b).length, f i = (a ++ b)[i]?) :
    (List.range' a.length b.length).mapM f = some b := by
  induction b generalizing a with
  | nil => rfl
  | cons x b ih =>
    have hsplit : a ++ x :: b = (a ++ [x]) ++ b := by
      rw [List.append_assoc, List.singleton_append]
    have hx : f a.length = some x := by
      rw [hf _ (by rw [List.length_append, List.length_cons]; omega),
        List.getElem?_append_right (Nat.le_refl _), Nat.sub_self]
      rfl
    have hrest := ih (a := a ++ [x]) (hsplit ▸ hf)
    rw [List.length_append, List.length_singleton] at hrest
    rw [List.length_cons, List.range'_succ, List.mapM_cons, hx]
    dsimp only [Option.bind_eq_bind, Option.bind_some]
    rw [hrest]
    rfl

theorem sum_fold {ops : List Opcode} (regs : List ℕ)
    (hlen : regs.length + (opcodeRegisters ops).length ≤ hllRegisters) :
    ops.foldlM sumStep (regs, regs.length)
      = some (regs ++ opcodeRegisters ops, regs.length + (opcodeRegisters ops).length) := by
  induction ops generalizing regs with
  | nil => rw [opcodeRegisters_nil, List.append_nil]; rfl
  | cons op ops ih =>
    rw [opcodeRegisters_cons, List.length_append, Opcode.length_registers] at hlen ⊢
    have hrest := ih (regs ++ op.registers)
      (by rw [List.length_append, Opcode.length_registers]; omega)
    rw [List.length_append, Opcode.length_registers] at hrest
    rw [List.foldlM_cons, sumStep, intAdd_eq (by omega)]
    dsimp only [Option.bind_eq_bind, Option.bind_some]
    rw [← Opcode.registers, hrest, List.append_assoc, Nat.add_assoc]

theorem hllCountRegisters_spec {s : Bytes} {regs : List ℕ} (h : Represents s regs) :
    hllCountRegisters s = some (some regs) := by
  cases h with
  | dense h =>
    rw [hllCountRegisters, h.encoding.2.2]
    dsimp only [Option.bind_eq_bind, Option.bind_some]
    have hall : (List.range' ([] : List ℕ).length regs.length).mapM (denseGetRegister (s ++ [0]))
        = some regs := mapM_range' fun i hi => h.get (by rw [← h.count]; exact hi)
    rw [if_pos rfl, List.range_eq_range', ← h.count]
    rw [List.length_nil] at hall
    rw [hall]
    rfl
  | @sparse ops h =>
    obtain ⟨⟨hdr, hhdr, rfl⟩, hvalid, hregs⟩ := h
    rw [hllCountRegisters, hhdr.encoding_append]
    dsimp only [Option.bind_eq_bind, Option.bind_some]
    have hfold := sum_fold [] (show 0 + (opcodeRegisters ops).length ≤ _ by
      rw [hregs, Nat.zero_add])
    rw [List.length_nil, Nat.zero_add, List.nil_append] at hfold
    rw [if_neg (by decide), if_pos rfl, sparseScan_eq _ hvalid hhdr.length, hfold, Option.bind_some]
    dsimp only
    rw [if_neg (fun hne => hne hregs)]

/-! ### Merging -/

/-- The larger one of every two registers. -/
def maxRegisters (a b : List ℕ) : List ℕ := List.zipWith Nat.max a b

theorem maxAt_eq {a b : List ℕ} {x : ℕ} (v : ℕ) :
    maxAt (a ++ x :: b) a.length v = some (a ++ Nat.max x v :: b) := by
  rw [maxAt, List.getElem?_append_right (Nat.le_refl _), Nat.sub_self]
  dsimp only [List.getElem?_cons_zero, Option.bind_eq_bind, Option.bind_some]
  rw [List.set_append_right _ _ (Nat.le_refl _), Nat.sub_self, List.set_cons_zero]
  split
  · rename_i hlt
    rw [show Nat.max x v = v from Nat.max_eq_right (Nat.le_of_lt hlt)]
  · rename_i hle
    rw [show Nat.max x v = x from Nat.max_eq_left (Nat.le_of_not_lt hle)]

theorem mergeRun_eq (v : ℕ) {a b c : List ℕ} :
    mergeRun v b.length (a ++ (b ++ c)) a.length
      = some (a ++ (maxRegisters b (List.replicate b.length v) ++ c)) := by
  induction b generalizing a with
  | nil => rfl
  | cons x b ih =>
    have hrest := ih (a := a ++ [Nat.max x v])
    rw [List.length_append, List.append_assoc, List.append_assoc] at hrest
    rw [List.length_cons, mergeRun, List.cons_append, maxAt_eq]
    dsimp only [Option.bind_eq_bind, Option.bind_some]
    exact hrest

theorem maxRegisters_zero (b : List ℕ) : maxRegisters b (List.replicate b.length 0) = b := by
  induction b with
  | nil => rfl
  | cons x b ih =>
    rw [List.length_cons, List.replicate_succ, maxRegisters, List.zipWith_cons_cons]
    rw [maxRegisters] at ih
    rw [ih, show Nat.max x 0 = x from Nat.max_eq_left (Nat.zero_le x)]

theorem merge_fold {ops : List Opcode} {a b : List ℕ}
    (hlen : b.length = (opcodeRegisters ops).length) (hle : a.length + b.length ≤ hllRegisters) :
    ops.foldlM mergeStep (a ++ b, a.length)
      = some (a ++ maxRegisters b (opcodeRegisters ops), a.length + b.length) := by
  induction ops generalizing a b with
  | nil =>
    obtain rfl := List.length_eq_zero_iff.mp hlen
    rfl
  | cons op ops ih =>
    rw [opcodeRegisters_cons, List.length_append, Opcode.length_registers] at hlen
    obtain ⟨c, d, rfl, hc⟩ : ∃ c d, b = c ++ d ∧ c.length = op.len :=
      ⟨b.take op.len, b.drop op.len, (List.take_append_drop _ _).symm,
        List.length_take_of_le (by omega)⟩
    rw [List.length_append, hc] at hlen hle
    have hidx : intAdd a.length op.len = a.length + op.len := intAdd_eq (by omega)
    have hd : d.length = (opcodeRegisters ops).length := Nat.add_left_cancel hlen
    have hstep : mergeStep (a ++ (c ++ d), a.length) op
        = some (a ++ (maxRegisters c op.registers ++ d), a.length + op.len) := by
      have hzero := maxRegisters_zero c
      rw [hc] at hzero
      rw [← hidx]
      cases op with
      | zero n =>
        rw [show maxRegisters c (Opcode.zero n).registers = c from hzero]
        rfl
      | xzero n =>
        rw [show maxRegisters c (Opcode.xzero n).registers = c from hzero]
        rfl
      | val v n =>
        have hrun := mergeRun_eq v (a := a) (b := c) (c := d)
        rw [hc] at hrun
        show (mergeRun v n (a ++ (c ++ d)) a.length).bind _ = _
        rw [show mergeRun v n (a ++ (c ++ d)) a.length = _ from hrun]
        rfl
    have hnew : (maxRegisters c op.registers).length = op.len := by
      rw [maxRegisters, List.length_zipWith, hc, Opcode.length_registers, Nat.min_self]
    have hrest := ih (a := a ++ maxRegisters c op.registers) hd
      (by rw [List.length_append, hnew]; omega)
    rw [List.length_append, hnew, List.append_assoc, List.append_assoc] at hrest
    rw [List.foldlM_cons, hstep]
    dsimp only [Option.bind_eq_bind, Option.bind_some]
    rw [hrest, opcodeRegisters_cons, List.length_append, hc, Nat.add_assoc]
    rw [maxRegisters, maxRegisters, maxRegisters, ← List.zipWith_append (by
      rw [hc, Opcode.length_registers])]

theorem denseMergeLoop_eq {m : Bytes} {c regs : List ℕ} {a b : List ℕ} (hc : c.length = a.length)
    (hlen : b.length = regs.length)
    (hget : ∀ i < (c ++ regs).length, denseGetRegister m i = (c ++ regs)[i]?) :
    denseMergeLoop m b.length (a ++ b) a.length = some (a ++ maxRegisters b regs) := by
  induction regs generalizing a b c with
  | nil =>
    obtain rfl := List.length_eq_zero_iff.mp hlen
    rfl
  | cons r regs ih =>
    cases b with
    | nil => cases hlen
    | cons x b =>
      have hr : denseGetRegister m a.length = some r := by
        rw [hget _ (by rw [List.length_append, List.length_cons, hc]; omega), ← hc,
          List.getElem?_append_right (Nat.le_refl _), Nat.sub_self]
        rfl
      have hsplit : c ++ r :: regs = (c ++ [r]) ++ regs := by
        rw [List.append_assoc, List.singleton_append]
      have hrest := ih (c := c ++ [r]) (a := a ++ [Nat.max x r]) (b := b)
        (by rw [List.length_append, List.length_append, hc]; rfl) (Nat.succ.inj hlen)
        (hsplit ▸ hget)
      rw [List.length_append, List.append_assoc, List.append_assoc] at hrest
      rw [List.length_cons, denseMergeLoop, hr]
      dsimp only [Option.bind_eq_bind, Option.bind_some]
      rw [maxAt_eq]
      exact hrest

theorem hllMerge_spec {s : Bytes} {regs max : List ℕ} (h : Represents s regs)
    (hmax : max.length = hllRegisters) : hllMerge max s = some (some (maxRegisters max regs)) := by
  cases h with
  | dense h =>
    have hloop := denseMergeLoop_eq (c := []) (a := []) (b := max) rfl (hmax.trans h.count.symm)
      fun i hi => h.get (by rw [← h.count]; exact hi)
    rw [hmax] at hloop
    rw [hllMerge, h.encoding.2.2]
    dsimp only [Option.bind_eq_bind, Option.bind_some]
    rw [if_pos rfl]
    rw [List.nil_append, List.nil_append, List.length_nil] at hloop
    rw [hloop]
    rfl
  | @sparse ops h =>
    obtain ⟨⟨hdr, hhdr, rfl⟩, hvalid, hregs⟩ := h
    have hfold := merge_fold (a := []) (hmax.trans hregs.symm)
      (by rw [hmax]; exact Nat.le_refl _)
    rw [List.nil_append, List.nil_append, List.length_nil, Nat.zero_add] at hfold
    rw [hllMerge, hhdr.encoding_append]
    dsimp only [Option.bind_eq_bind, Option.bind_some]
    rw [if_neg (by decide), sparseScan_eq _ hvalid hhdr.length, hfold, Option.bind_some]
    dsimp only
    rw [if_neg fun hne => hne hmax]

/-! ### The header -/

theorem DenseBlock.set_header {hdr hdr' rest : Bytes} {regs : List ℕ}
    (h : DenseBlock (hdr ++ rest) hdr regs) (hlen : hdr.length = hllHdrSize)
    (hlen' : hdr'.length = hllHdrSize) : DenseBlock (hdr' ++ rest) hdr' regs := by
  have hget : ∀ q, (hdr' ++ rest)[hllHdrSize + q]? = (hdr ++ rest)[hllHdrSize + q]? := fun q => by
    rw [List.getElem?_append_right (by rw [hlen']; exact Nat.le_add_right _ _),
      List.getElem?_append_right (by rw [hlen]; exact Nat.le_add_right _ _), hlen, hlen']
  refine ⟨?_, List.take_left' hlen', (hget denseBytes).trans h.terminator, h.count, fun i hi => ?_⟩
  · rw [List.length_append, hlen', ← hlen, ← List.length_append, h.length]
  · rw [← h.packed i hi, denseGetRegister, denseGetRegister, getField, getField, Nat.add_assoc, hget,
      hget]

theorem Represents.header {s : Bytes} {regs : List ℕ} (h : Represents s regs) :
    ∃ hdr body encoding, Header hdr encoding ∧ s = hdr ++ body ∧
      ((encoding = hllDense ∧ s.length = hllDenseSize) ∨ encoding = hllSparse) ∧
      ∀ hdr', Header hdr' encoding → Represents (hdr' ++ body) regs := by
  cases h with
  | sparse h =>
    obtain ⟨⟨hdr, hhdr, hsplit⟩, hvalid, hregs⟩ := h
    exact ⟨hdr, _, hllSparse, hhdr, hsplit, .inr rfl,
      fun hdr' hhdr' => .sparse ⟨⟨hdr', hhdr', rfl⟩, hvalid, hregs⟩⟩
  | dense h =>
    obtain ⟨hdr, hhdr, hblock⟩ := h.block
    have hlen := hblock.length_string
    have hshort : hllHdrSize ≤ s.length := by rw [hlen]; decide
    have htake : s.take hllHdrSize = hdr := by
      rw [← hblock.header, List.take_append_of_le_length hshort]
    have hsplit : s = hdr ++ s.drop hllHdrSize := by rw [← htake, List.take_append_drop]
    refine ⟨hdr, s.drop hllHdrSize, hllDense, hhdr, hsplit, .inl ⟨rfl, hlen⟩,
      fun hdr' hhdr' => .dense ⟨hdr', hhdr', ?_⟩⟩
    rw [hsplit, List.append_assoc] at hblock
    rw [List.append_assoc]
    exact hblock.set_header hhdr.length hhdr'.length

theorem Represents.isHLLObject {s : Bytes} {regs : List ℕ} (h : Represents s regs) :
    isHLLObject s = true := by
  obtain ⟨hdr, body, encoding, hhdr, hsplit, hencoding, -⟩ := h.header
  have hget : s[4]? = some encoding := hsplit ▸ hhdr.encoding_append body
  refine decide_eq_true ⟨?_, ?_, ?_, fun hdense => ?_⟩
  · rw [hsplit, List.length_append, hhdr.length]
    exact Nat.le_add_right _ _
  · rw [hsplit, List.take_append_of_le_length (by rw [hhdr.length]; decide), hhdr.magic]
  · rcases hencoding with ⟨rfl, -⟩ | rfl
    · exact .inl hget
    · exact .inr hget
  · rcases hencoding with ⟨-, hlen⟩ | rfl
    · exact hlen
    · exact absurd (hget.symm.trans hdense) (by decide)

theorem represents_createHLLObject : Represents createHLLObject emptyRegisters := by
  have hregs : opcodeRegisters [.xzero hllRegisters] = emptyRegisters := List.append_nil _
  have hsparse : Sparse createHLLObject [.xzero hllRegisters] := by
    refine ⟨⟨magic ++ hllSparse :: List.replicate 11 0, ⟨rfl, rfl, rfl⟩, rfl⟩, fun op hop => ?_, ?_⟩
    · rw [List.mem_singleton.mp hop]
      exact ⟨by decide, Nat.le_refl _⟩
    · rw [hregs, emptyRegisters, List.length_replicate]
  exact hregs ▸ .sparse hsparse

theorem Represents.set_byte {s : Bytes} {regs : List ℕ} (h : Represents s regs) :
    ∃ b, s[8]? = some b ∧ ∀ b', Represents (s.set 8 b') regs := by
  obtain ⟨hdr, body, encoding, hhdr, rfl, -, hother⟩ := h.header
  have hlt : 8 < hdr.length := by rw [hhdr.length]; decide
  refine ⟨hdr[8], ?_, fun b' => ?_⟩
  · rw [List.getElem?_append_left hlt, List.getElem?_eq_getElem hlt]
  · rw [List.set_append_left _ _ hlt]
    exact hother _ (hhdr.set_card b')

theorem Represents.store_card {s : Bytes} {regs : List ℕ} (h : Represents s regs) {card : Bytes}
    (hcard : card.length = 8) :
    ∃ s', store s 8 card = some s' ∧ Represents s' regs ∧ slice s' 8 8 = some card := by
  obtain ⟨hdr, body, encoding, hhdr, rfl, -, hother⟩ := h.header
  have hsplit : hdr = hdr.take 8 ++ hdr.drop 8 := (List.take_append_drop 8 hdr).symm
  have hfront : (hdr.take 8).length = 8 := List.length_take_of_le (by rw [hhdr.length]; decide)
  have hback : (hdr.drop 8).length = 8 := by rw [List.length_drop, hhdr.length]; rfl
  have hnew : Header (hdr.take 8 ++ card) encoding := by
    refine ⟨by rw [List.length_append, hfront, hcard]; rfl, ?_, ?_⟩
    · rw [List.take_append_of_le_length (by rw [hfront]; decide), List.take_take]
      exact hhdr.magic
    · rw [List.getElem?_append_left (by rw [hfront]; decide), List.getElem?_take_of_lt (by decide),
        hhdr.encoding]
  refine ⟨hdr.take 8 ++ card ++ body, ?_, hother _ hnew, ?_⟩
  · rw [hsplit, List.append_assoc, List.append_assoc]
    simp only [← hsplit]
    exact store_append hfront.symm (hcard.trans hback.symm)
  · rw [List.append_assoc]
    exact slice_append hfront.symm hcard.symm

end Hyperloglog

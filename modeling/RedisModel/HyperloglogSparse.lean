/-
The sparse representation of HyperLogLogs.

* `readOpcode_bytes`, `sparseScan_eq` — opcodes are read as they were written;
* `locateLoop_eq`, `splitOpcode_spec`, `substitute_eq`, `mergeLoop_spec` — the four steps of
  `hllSparseAdd`;
* `splitRun_spec`, `setSingle_spec` — one register changes.
-/
import RedisModel.Hyperloglog

open ByteBuffer

namespace Hyperloglog

/-- An opcode that can be written. -/
def Opcode.Valid : Opcode → Prop
  | zero n => 0 < n ∧ n ≤ zeroMaxLen
  | xzero n => 0 < n ∧ n ≤ xzeroMaxLen
  | val v n => (0 < v ∧ v ≤ valMaxValue) ∧ 0 < n ∧ n ≤ valMaxLen

/-- The registers of an opcode. -/
def Opcode.registers (op : Opcode) : List ℕ := List.replicate op.len op.value

/-- The registers of opcodes. -/
def opcodeRegisters (ops : List Opcode) : List ℕ := ops.flatMap Opcode.registers

@[simp] theorem opcodeBytes_nil : opcodeBytes [] = [] := rfl

@[simp] theorem opcodeBytes_cons (op : Opcode) (ops : List Opcode) :
    opcodeBytes (op :: ops) = op.bytes ++ opcodeBytes ops := List.flatMap_cons

@[simp] theorem opcodeBytes_append (ops ops' : List Opcode) :
    opcodeBytes (ops ++ ops') = opcodeBytes ops ++ opcodeBytes ops' := List.flatMap_append

@[simp] theorem opcodeRegisters_nil : opcodeRegisters [] = [] := rfl

@[simp] theorem opcodeRegisters_cons (op : Opcode) (ops : List Opcode) :
    opcodeRegisters (op :: ops) = op.registers ++ opcodeRegisters ops := List.flatMap_cons

@[simp] theorem opcodeRegisters_append (ops ops' : List Opcode) :
    opcodeRegisters (ops ++ ops') = opcodeRegisters ops ++ opcodeRegisters ops' :=
  List.flatMap_append

@[simp] theorem Opcode.length_registers (op : Opcode) : op.registers.length = op.len :=
  List.length_replicate

theorem Opcode.Valid.len_pos {op : Opcode} (h : op.Valid) : 0 < op.len := by
  cases op with
  | zero n => exact h.1
  | xzero n => exact h.1
  | val v n => exact h.2.1

theorem Opcode.length_bytes_pos (op : Opcode) : 0 < op.bytes.length := by
  cases op <;> exact Nat.succ_pos _

/-! ### Reading opcodes -/

theorem zero_bits : ∀ k < 64, k &&& 0xc0 = 0 ∧ k &&& 0x3f = k := by decide

theorem xzero_bits : ∀ k < 64, k ||| 0x40 < 256 ∧ (k ||| 0x40) &&& 0xc0 = 0x40 ∧
    (k ||| 0x40) &&& 0x3f = k := by decide

theorem val_bits : ∀ v < 32, ∀ n < 4, (v <<< 2 ||| n ||| 0x80) < 256 ∧
    (v <<< 2 ||| n ||| 0x80) &&& 0xc0 ≠ 0 ∧ (v <<< 2 ||| n ||| 0x80) &&& 0xc0 ≠ 0x40 ∧
    (v <<< 2 ||| n ||| 0x80) >>> 2 &&& 0x1f = v ∧ (v <<< 2 ||| n ||| 0x80) &&& 0x3 = n := by
  decide

theorem toNat_byte {k : ℕ} (hk : k < 256) : (UInt8.ofNat k).toNat = k :=
  UInt8.toNat_ofNat_of_lt' hk

theorem readOpcode_bytes {op : Opcode} (hop : op.Valid) (a c : Bytes) :
    readOpcode (a ++ (op.bytes ++ c)) a.length = some (op, op.bytes.length) := by
  rw [readOpcode, List.getElem?_append_right (Nat.le_refl _), Nat.sub_self]
  cases op with
  | zero n =>
    obtain ⟨hpos, hle⟩ := hop
    rw [zeroMaxLen] at hle
    obtain ⟨hkind, hlen⟩ := zero_bits (n - 1) (by omega)
    have hget : ((Opcode.zero n).bytes ++ c)[0]? = some (UInt8.ofNat (n - 1)) := rfl
    rw [hget]
    dsimp only [Option.bind_eq_bind, Option.bind_some]
    rw [toNat_byte (by omega), hkind, hlen, if_pos rfl, Nat.sub_add_cancel hpos]
    rfl
  | xzero n =>
    obtain ⟨hpos, hle⟩ := hop
    rw [xzeroMaxLen] at hle
    have hhi : (n - 1) >>> 8 = (n - 1) / 256 := Nat.shiftRight_eq_div_pow _ 8
    have hlo : (n - 1) &&& 0xff = (n - 1) % 256 := Nat.and_two_pow_sub_one_eq_mod _ 8
    obtain ⟨hbyte, hkind, hlen⟩ := xzero_bits ((n - 1) / 256) (by omega)
    have hget : ((Opcode.xzero n).bytes ++ c)[0]? = some (UInt8.ofNat ((n - 1) >>> 8 ||| 0x40)) :=
      rfl
    have hget1 : (a ++ ((Opcode.xzero n).bytes ++ c))[a.length + 1]?
        = some (UInt8.ofNat ((n - 1) &&& 0xff)) := by
      rw [List.getElem?_append_right (Nat.le_add_right _ 1), Nat.add_sub_cancel_left]
      rfl
    have hor : ((n - 1) / 256) <<< 8 ||| (n - 1) % 256 = n - 1 := by
      rw [← Nat.shiftLeft_add_eq_or_of_lt (Nat.mod_lt _ (by decide)), Nat.shiftLeft_eq]
      omega
    rw [hget, hget1]
    dsimp only [Option.bind_eq_bind, Option.bind_some]
    rw [hhi, hlo, toNat_byte hbyte, toNat_byte (Nat.mod_lt _ (by decide)), hkind, hlen,
      if_neg (by decide), if_pos rfl, hor, Nat.sub_add_cancel hpos]
    rfl
  | val v n =>
    obtain ⟨⟨hv, hvle⟩, hn, hnle⟩ := hop
    rw [valMaxValue] at hvle
    rw [valMaxLen] at hnle
    obtain ⟨hbyte, hkind, hkind', hval, hlen⟩ := val_bits (v - 1) (by omega) (n - 1) (by omega)
    have hget : ((Opcode.val v n).bytes ++ c)[0]?
        = some (UInt8.ofNat ((v - 1) <<< 2 ||| (n - 1) ||| 0x80)) := rfl
    rw [hget]
    dsimp only [Option.bind_eq_bind, Option.bind_some]
    rw [toNat_byte hbyte, if_neg hkind, if_neg hkind', hval, hlen, Nat.sub_add_cancel hv,
      Nat.sub_add_cancel hn]
    rfl

theorem sparseLoop_eq {σ : Type} (step : σ → Opcode → Option σ) {ops : List Opcode}
    (hops : ∀ op ∈ ops, op.Valid) {a c : Bytes} {last fuel p : ℕ} (hp : p = a.length)
    (hlast : last = a.length + (opcodeBytes ops).length) (hfuel : (opcodeBytes ops).length < fuel)
    (st : σ) :
    sparseLoop step (a ++ (opcodeBytes ops ++ c)) last fuel p st = ops.foldlM step st := by
  induction ops generalizing a fuel p st with
  | nil =>
    obtain ⟨fuel, rfl⟩ := Nat.exists_eq_succ_of_ne_zero (Nat.ne_zero_of_lt hfuel)
    rw [sparseLoop, if_neg (by rw [hp, hlast]; exact Nat.lt_irrefl _)]
    rfl
  | cons op ops ih =>
    obtain ⟨hop, hops⟩ := List.forall_mem_cons.mp hops
    obtain ⟨fuel, rfl⟩ := Nat.exists_eq_succ_of_ne_zero (Nat.ne_zero_of_lt hfuel)
    have hpos := op.length_bytes_pos
    rw [opcodeBytes_cons, List.length_append] at hlast hfuel
    have hsplit : a ++ (opcodeBytes (op :: ops) ++ c) = (a ++ op.bytes) ++ (opcodeBytes ops ++ c) := by
      rw [opcodeBytes_cons, List.append_assoc, List.append_assoc]
    rw [sparseLoop, if_pos (by omega), hp, opcodeBytes_cons, List.append_assoc,
      readOpcode_bytes hop, List.foldlM_cons]
    dsimp only [Option.bind_eq_bind, Option.bind_some]
    cases step st op with
    | none => rfl
    | some st =>
      rw [Option.bind_some, Option.bind_some, ← List.append_assoc]
      refine ih hops (by rw [List.length_append]) (by rw [List.length_append]; omega) ?_ st
      omega

theorem sparseScan_eq {σ : Type} (step : σ → Opcode → Option σ) {ops : List Opcode}
    (hops : ∀ op ∈ ops, op.Valid) {hdr : Bytes} (hhdr : hdr.length = hllHdrSize) (st : σ) :
    sparseScan step (hdr ++ opcodeBytes ops) st = ops.foldlM step st := by
  rw [sparseScan, List.append_assoc]
  refine sparseLoop_eq step hops hhdr.symm List.length_append ?_ st
  rw [List.length_append]
  omega

/-! ### The four steps -/

theorem locateLoop_eq {pre : List Opcode} {op : Opcode} (hpre : ∀ op ∈ pre, op.Valid)
    (hop : op.Valid) (a c : Bytes) (last index fuel : ℕ) (l : Located) (hp : l.p = a.length)
    (hlast : a.length + (opcodeBytes pre).length < last)
    (hlow : l.first + (opcodeRegisters pre).length ≤ index)
    (hhigh : index < l.first + (opcodeRegisters pre).length + op.len)
    (hfuel : (opcodeBytes pre).length < fuel) :
    ∃ prev pre₁ pre₂, pre = pre₁ ++ pre₂ ∧
      (pre = [] ∧ prev = l.prev ∨ prev = some (a.length + (opcodeBytes pre₁).length)) ∧
      locateLoop (a ++ (opcodeBytes pre ++ (op.bytes ++ c))) last index fuel l
        = some ⟨a.length + (opcodeBytes pre).length, prev,
            l.first + (opcodeRegisters pre).length, op.len⟩ := by
  induction pre generalizing a fuel l with
  | nil =>
    obtain ⟨fuel, rfl⟩ := Nat.exists_eq_succ_of_ne_zero (Nat.ne_zero_of_lt hfuel)
    refine ⟨l.prev, [], [], rfl, .inl ⟨rfl, rfl⟩, ?_⟩
    rw [opcodeBytes_nil, List.nil_append, locateLoop, hp,
      if_pos (Nat.lt_of_le_of_lt (Nat.le_add_right _ _) hlast), readOpcode_bytes hop]
    dsimp only [Option.bind_eq_bind, Option.bind_some]
    rw [if_pos (show index < l.first + op.len from hhigh)]
    rfl
  | cons o pre ih =>
    obtain ⟨ho, hpre⟩ := List.forall_mem_cons.mp hpre
    obtain ⟨fuel, rfl⟩ := Nat.exists_eq_succ_of_ne_zero (Nat.ne_zero_of_lt hfuel)
    have hpos := o.length_bytes_pos
    rw [opcodeRegisters_cons, List.length_append, Opcode.length_registers] at hlow hhigh
    rw [opcodeBytes_cons, List.length_append] at hlast hfuel
    have hnext : l.p < last ∧ ¬ index < l.first + o.len := by omega
    have hfuel' : (opcodeBytes pre).length < fuel := by omega
    let next : Located := ⟨a.length + o.bytes.length, some a.length, l.first + o.len, o.len⟩
    have hp' : next.p = (a ++ o.bytes).length := List.length_append.symm
    obtain ⟨prev, pre₁, pre₂, hsplit, hprev, hloop⟩ := ih hpre (a ++ o.bytes) fuel next hp'
      (by rw [List.length_append]; omega) (by dsimp only [next]; omega)
      (by dsimp only [next]; omega) hfuel'
    have hrun : locateLoop (a ++ (opcodeBytes (o :: pre) ++ (op.bytes ++ c))) last index (fuel + 1) l
        = some ⟨a.length + (opcodeBytes (o :: pre)).length, prev,
            l.first + (opcodeRegisters (o :: pre)).length, op.len⟩ := by
      rw [locateLoop, if_pos hnext.1, hp, opcodeBytes_cons, List.append_assoc,
        readOpcode_bytes ho]
      dsimp only [Option.bind_eq_bind, Option.bind_some]
      rw [if_neg hnext.2, ← List.append_assoc, hloop, List.length_append, List.length_append,
        opcodeRegisters_cons, List.length_append, Opcode.length_registers, Nat.add_assoc,
        Nat.add_assoc]
    rcases hprev with ⟨hnil, hprev⟩ | hprev
    · refine ⟨prev, [], o :: pre, rfl, .inr ?_, hrun⟩
      rw [hprev]
      rfl
    · refine ⟨prev, o :: pre₁, pre₂, by rw [hsplit, List.cons_append], .inr ?_, hrun⟩
      rw [hprev, opcodeBytes_cons, List.length_append, List.length_append, Nat.add_assoc]

theorem set_replicate {n i v c : ℕ} (hi : i < n) :
    (List.replicate n v).set i c
      = List.replicate i v ++ c :: List.replicate (n - 1 - i) v := by
  rw [List.set_eq_take_append_cons_drop, if_pos (by rwa [List.length_replicate]),
    List.take_replicate, List.drop_replicate, Nat.min_eq_left hi.le, Nat.sub_add_eq, Nat.sub_right_comm]

theorem split_spec (run : ℕ → Opcode) (v n size : ℕ) {first index count : ℕ}
    (hrun : ∀ k, 0 < k → k < n → (run k).Valid ∧ (run k).registers = List.replicate k v ∧
      (run k).bytes.length ≤ size)
    (hcount : 0 < count) (hmax : count ≤ valMaxValue) (hlow : first ≤ index)
    (hhigh : index < first + n) {ops : List Opcode}
    (hops : ops = (if index ≠ first then [run (index - first)] else []) ++ [.val count 1] ++
      (if index ≠ first + n - 1 then [run (first + n - 1 - index)] else [])) :
    (∀ o ∈ ops, o.Valid) ∧
      opcodeRegisters ops = (List.replicate n v).set (index - first) count ∧
      (opcodeBytes ops).length ≤ 2 * size + 1 := by
  have hpart : ∀ k, k < n → ∀ p : Prop, [Decidable p] → (p ↔ 0 < k) →
      (∀ o ∈ (if p then [run k] else []), o.Valid) ∧
        opcodeRegisters (if p then [run k] else []) = List.replicate k v ∧
        (opcodeBytes (if p then [run k] else [])).length ≤ size := by
    intro k hk p _ hp
    by_cases hpos : 0 < k
    · obtain ⟨hvalid, hregs, hbytes⟩ := hrun k hpos hk
      rw [if_pos (hp.mpr hpos)]
      refine ⟨fun o ho => List.mem_singleton.mp ho ▸ hvalid, ?_, ?_⟩
      · rw [opcodeRegisters_cons, opcodeRegisters_nil, List.append_nil, hregs]
      · rw [opcodeBytes_cons, opcodeBytes_nil, List.append_nil]
        exact hbytes
    · rw [if_neg fun h => hpos (hp.mp h), Nat.eq_zero_of_not_pos hpos]
      exact ⟨fun o ho => absurd ho List.not_mem_nil, rfl, Nat.zero_le _⟩
  obtain ⟨hv₁, hr₁, hb₁⟩ := hpart (index - first) (by omega) (index ≠ first) (by omega)
  obtain ⟨hv₂, hr₂, hb₂⟩ := hpart (first + n - 1 - index) (by omega) (index ≠ first + n - 1)
    (by omega)
  subst hops
  refine ⟨fun o ho => ?_, ?_, ?_⟩
  · rcases List.mem_append.mp ho with ho | ho
    · rcases List.mem_append.mp ho with ho | ho
      · exact hv₁ o ho
      · rw [List.mem_singleton.mp ho]
        exact ⟨⟨hcount, hmax⟩, Nat.one_pos, by decide⟩
    · exact hv₂ o ho
  · have hlast : first + n - 1 - index = n - 1 - (index - first) := by omega
    rw [opcodeRegisters_append, opcodeRegisters_append, hr₁, hr₂, set_replicate (by omega), hlast,
      List.append_assoc]
    rfl
  · have hone : (opcodeBytes [Opcode.val count 1]).length = 1 := rfl
    rw [opcodeBytes_append, opcodeBytes_append, List.length_append, List.length_append, hone]
    omega

theorem zeroRun_spec {k : ℕ} (hpos : 0 < k) (hk : k < xzeroMaxLen) :
    (zeroRun k).Valid ∧ (zeroRun k).registers = List.replicate k 0 ∧
      (zeroRun k).bytes.length ≤ if k > zeroMaxLen then 2 else 1 := by
  rw [zeroRun]
  split
  · exact ⟨⟨hpos, hk.le⟩, rfl, Nat.le_refl _⟩
  · rename_i hsmall
    exact ⟨⟨hpos, Nat.le_of_not_lt hsmall⟩, rfl, Nat.le_refl _⟩

theorem splitOpcode_spec {op : Opcode} (hop : op.Valid) {first index count : ℕ} (hcount : 0 < count)
    (hmax : count ≤ valMaxValue) (hlow : first ≤ index) (hhigh : index < first + op.len) :
    (∀ o ∈ splitOpcode op first op.len index count, o.Valid) ∧
      opcodeRegisters (splitOpcode op first op.len index count)
        = op.registers.set (index - first) count ∧
      (opcodeBytes (splitOpcode op first op.len index count)).length ≤ op.bytes.length + 3 := by
  cases op with
  | zero n =>
    obtain ⟨hvalid, hregs, hbytes⟩ := split_spec zeroRun 0 n 1
      (fun k hpos hk => by
        have hsmall : ¬ k > zeroMaxLen := by have := hop.2; omega
        obtain ⟨hv, hr, hb⟩ := zeroRun_spec hpos (hk.trans_le (hop.2.trans (by decide)))
        exact ⟨hv, hr, hb.trans (by rw [if_neg hsmall])⟩)
      hcount hmax hlow hhigh rfl
    exact ⟨hvalid, hregs, hbytes.trans (by show 3 ≤ 1 + 3; omega)⟩
  | xzero n =>
    obtain ⟨hvalid, hregs, hbytes⟩ := split_spec zeroRun 0 n 2
      (fun k hpos hk => by
        obtain ⟨hv, hr, hb⟩ := zeroRun_spec hpos (hk.trans_le hop.2)
        exact ⟨hv, hr, hb.trans (by split <;> decide)⟩)
      hcount hmax hlow hhigh rfl
    exact ⟨hvalid, hregs, hbytes⟩
  | val v n =>
    obtain ⟨hvalid, hregs, hbytes⟩ := split_spec (Opcode.val v) v n 1
      (fun k hpos hk => ⟨⟨hop.1, hpos, hk.le.trans hop.2.2⟩, rfl, Nat.le_refl _⟩)
      hcount hmax hlow hhigh rfl
    exact ⟨hvalid, hregs, hbytes.trans (by show 3 ≤ 1 + 3; omega)⟩

theorem store_before {m x y : Bytes} {p : ℕ} (hin : p + (x ++ y).length ≤ m.length) :
    (store m (p + x.length) y).bind (store · p x) = store m p (x ++ y) := by
  rw [List.length_append] at hin
  have hy : store m (p + x.length) y = some (m.take p ++ ((m.drop p).take x.length ++
      (y ++ m.drop (p + x.length + y.length)))) := by
    rw [store, if_pos (by omega), List.take_add, List.append_assoc, List.append_assoc]
  rw [hy, Option.bind_some, store_append (by simp; omega) (by simp; omega), store,
    if_pos (by rw [List.length_append]; omega), List.length_append, Nat.add_assoc]
  simp only [List.append_assoc]

theorem substitute_eq (a old post seq j : Bytes) {len : ℕ}
    (hlen : len = a.length + old.length + post.length)
    (hseq : seq.length ≤ old.length + j.length) :
    ∃ j', substitute (a ++ (old ++ (post ++ (0 :: j)))) len a.length old.length seq
      = some (a ++ (seq ++ (post ++ (0 :: j')))) := by
  set m := a ++ (old ++ (post ++ (0 :: j))) with hm
  have hmlen : m.length = len + 1 + j.length := by
    rw [hm]
    simp only [List.length_append, List.length_cons]
    omega
  have hin : a.length + (seq ++ (post ++ [0])).length ≤ m.length := by
    simp only [List.length_append, List.length_singleton]
    omega
  have hmove : moveTail m len (a.length + old.length) old.length seq.length
      = store m (a.length + seq.length) post := by
    have hdst : a.length + old.length + seq.length - old.length = a.length + seq.length := by omega
    have hcount : len - (a.length + old.length) = post.length := by omega
    have hsame : m = (a ++ old) ++ (post ++ (0 :: j)) := by rw [hm, List.append_assoc]
    rw [moveTail]
    split
    · rw [hdst, hcount, memmove]
      nth_rewrite 1 [hsame]
      rw [slice_append (by rw [List.length_append]) rfl, Option.bind_some]
    · rename_i hstay
      by_cases hpost : post = []
      · rw [hpost, store, if_pos (by simp; omega)]
        simp
      · have hpos := List.length_pos_iff.mpr hpost
        have hequal : seq.length = old.length := by
          by_contra hne
          exact hstay ⟨hne, by omega⟩
        rw [hequal, hsame, store_append (by rw [List.length_append]) rfl]
  have hend : len + seq.length - old.length = a.length + seq.length + post.length := by omega
  have hall : substitute m len a.length old.length seq = store m a.length (seq ++ (post ++ [0])) := by
    rw [substitute, hmove]
    dsimp only [Option.bind_eq_bind]
    rw [hend, ← Option.bind_assoc, store_bind_store, store_before hin]
  refine ⟨m.drop (a.length + (seq ++ (post ++ [0])).length), ?_⟩
  rw [hall, store, if_pos hin, hm, List.take_left']
  · simp only [List.append_assoc, List.singleton_append]
  · rfl

theorem mergeVal_eq {β : Type} (f : Bytes → Option β) (a rest j : Bytes) {x y z : Bytes}
    (hx : x.length = 1) (hy : y.length = 1) (hz : z.length = 1) {len : ℕ}
    (hlen : len = a.length + (1 + (y ++ rest).length)) :
    ((store (a ++ (x ++ ((y ++ rest) ++ (0 :: j)))) (a.length + 1) z).bind fun m =>
      (memmove m a.length (a.length + 1) (len - a.length)).bind fun m =>
        (store m (len - 1) [0]).bind f) = f (a ++ ((z ++ rest) ++ (0 :: 0 :: j))) := by
  rw [List.length_append, hy] at hlen
  have hfirst : store (a ++ (x ++ ((y ++ rest) ++ (0 :: j)))) (a.length + 1) z
      = some ((a ++ x) ++ (z ++ (rest ++ (0 :: j)))) := by
    rw [List.append_assoc y, ← List.append_assoc a]
    exact store_append (by rw [List.length_append, hx]) (hz.trans hy.symm)
  have hsource : slice ((a ++ x) ++ (z ++ (rest ++ (0 :: j)))) (a.length + 1) (len - a.length)
      = some (z ++ (rest ++ [0])) := by
    have hsplit : z ++ (rest ++ (0 :: j)) = (z ++ (rest ++ [0])) ++ j := by simp
    rw [hsplit]
    refine slice_append (by rw [List.length_append, hx]) ?_
    rw [List.length_append, List.length_append, hz, List.length_singleton]
    omega
  have hmoved : store ((a ++ x) ++ (z ++ (rest ++ (0 :: j)))) a.length (z ++ (rest ++ [0]))
      = some (a ++ ((z ++ (rest ++ [0])) ++ (0 :: j))) := by
    have hsplit : (a ++ x) ++ (z ++ (rest ++ (0 :: j))) = a ++ ((x ++ (z ++ rest)) ++ (0 :: j)) := by
      simp only [List.append_assoc]
    rw [hsplit]
    refine store_append rfl ?_
    simp only [List.length_append, List.length_singleton]
    omega
  have hend : store (a ++ ((z ++ (rest ++ [0])) ++ (0 :: j))) (len - 1) [0]
      = some (a ++ ((z ++ (rest ++ [0])) ++ (0 :: j))) := by
    have hsplit : a ++ ((z ++ (rest ++ [0])) ++ (0 :: j)) = (a ++ (z ++ rest)) ++ ([0] ++ (0 :: j)) := by
      simp only [List.append_assoc]
    rw [hsplit]
    refine store_append ?_ rfl
    simp only [List.length_append]
    omega
  rw [hfirst, Option.bind_some, memmove, hsource, Option.bind_some, hmoved, Option.bind_some, hend,
    Option.bind_some]
  simp only [List.append_assoc, List.singleton_append]

theorem mergeLoop_spec {ops : List Opcode} (hops : ∀ op ∈ ops, op.Valid) (scanlen : ℕ) {len p : ℕ}
    {a : Bytes} (j : Bytes) (hp : p = a.length) (hlen : len = a.length + (opcodeBytes ops).length) :
    ∃ ops' j', (∀ op ∈ ops', op.Valid) ∧ opcodeRegisters ops' = opcodeRegisters ops ∧
      (opcodeBytes ops').length ≤ (opcodeBytes ops).length ∧
      mergeLoop scanlen (a ++ (opcodeBytes ops ++ (0 :: j))) len p
        = some (a ++ (opcodeBytes ops' ++ (0 :: j')), a.length + (opcodeBytes ops').length) := by
  subst hp hlen
  induction scanlen generalizing a ops j with
  | zero => exact ⟨ops, j, hops, rfl, Nat.le_refl _, rfl⟩
  | succ scanlen ih =>
    cases ops with
    | nil =>
      refine ⟨[], j, hops, rfl, Nat.le_refl _, ?_⟩
      rw [mergeLoop, if_neg (by simp)]
    | cons op ops =>
      obtain ⟨hop, hrest⟩ := List.forall_mem_cons.mp hops
      -- Going on with the next opcode.
      have hskip : ∃ ops' j', (∀ op ∈ ops', op.Valid) ∧
          opcodeRegisters ops' = opcodeRegisters (op :: ops) ∧
          (opcodeBytes ops').length ≤ op.bytes.length + (opcodeBytes ops).length ∧
          mergeLoop scanlen (a ++ (op.bytes ++ (opcodeBytes ops ++ (0 :: j))))
            (a.length + (op.bytes.length + (opcodeBytes ops).length)) (a.length + op.bytes.length)
            = some (a ++ (opcodeBytes ops' ++ (0 :: j')), a.length + (opcodeBytes ops').length) := by
        obtain ⟨ops', j', hvalid, hregs, hle, hloop⟩ := ih hrest (a := a ++ op.bytes) j
        refine ⟨op :: ops', j', List.forall_mem_cons.mpr ⟨hop, hvalid⟩, ?_, ?_, ?_⟩
        · rw [opcodeRegisters_cons, hregs, opcodeRegisters_cons]
        · rw [opcodeBytes_cons, List.length_append]
          exact Nat.add_le_add_left hle _
        · rw [List.length_append, List.append_assoc, List.append_assoc] at hloop
          rw [← Nat.add_assoc, hloop, opcodeBytes_cons, List.append_assoc, List.length_append,
            Nat.add_assoc]
      have hpos := op.length_bytes_pos
      rw [opcodeBytes_cons, List.length_append, List.append_assoc, mergeLoop,
        if_pos (by omega), readOpcode_bytes hop]
      dsimp only [Option.bind_eq_bind, Option.bind_some]
      cases op with
      | zero n => exact hskip
      | xzero n => exact hskip
      | val v1 n1 =>
        dsimp only
        have hone : (Opcode.val v1 n1).bytes.length = 1 := rfl
        rw [hone] at hskip ⊢
        cases ops with
        | nil =>
          rw [if_neg (by simp)]
          exact hskip
        | cons op ops =>
          obtain ⟨hnext, hrest'⟩ := List.forall_mem_cons.mp hrest
          have hread : readOpcode (a ++ ((Opcode.val v1 n1).bytes ++
              (opcodeBytes (op :: ops) ++ (0 :: j)))) (a.length + 1)
              = some (op, op.bytes.length) := by
            rw [opcodeBytes_cons, List.append_assoc, ← List.append_assoc]
            have hread := readOpcode_bytes hnext (a ++ (Opcode.val v1 n1).bytes)
              (opcodeBytes ops ++ (0 :: j))
            rwa [List.length_append, hone] at hread
          have hpos' := op.length_bytes_pos
          rw [if_pos (by rw [opcodeBytes_cons, List.length_append]; omega), hread]
          dsimp only [Option.bind_some]
          cases op with
          | zero n => exact hskip
          | xzero n => exact hskip
          | val v2 n2 =>
            dsimp only
            split
            · rename_i hmerge
              obtain ⟨rfl, hfits⟩ := hmerge
              have hvalid : (Opcode.val v1 (n1 + n2)).Valid :=
                ⟨hop.1, Nat.add_pos_left hop.2.1 n2, hfits⟩
              have hnew : ∀ op ∈ Opcode.val v1 (n1 + n2) :: ops, op.Valid :=
                List.forall_mem_cons.mpr ⟨hvalid, hrest'⟩
              obtain ⟨ops', j', hvalid', hregs, hle, hloop⟩ := ih hnew (a := a) (0 :: j)
              refine ⟨ops', j', hvalid', ?_, hle.trans (Nat.le_add_left _ 1), ?_⟩
              · rw [hregs]
                simp only [opcodeRegisters_cons, ← List.append_assoc, Opcode.registers,
                  Opcode.len, Opcode.value, List.replicate_append_replicate]
              · have hlast : a.length + (1 + (opcodeBytes (.val v1 n2 :: ops)).length) - 1
                    = a.length + (opcodeBytes (.val v1 (n1 + n2) :: ops)).length := by
                  show a.length + (1 + (opcodeBytes ops).length.succ) - 1
                    = a.length + (opcodeBytes ops).length.succ
                  omega
                have hmerge := mergeVal_eq (fun m => mergeLoop scanlen m
                    (a.length + (opcodeBytes (.val v1 (n1 + n2) :: ops)).length) a.length)
                  a (opcodeBytes ops) j hone
                  (show (Opcode.val v1 n2).bytes.length = 1 from rfl)
                  (show (Opcode.val v1 (n1 + n2)).bytes.length = 1 from rfl) rfl
                rw [← hloop, ← hlast]
                rw [← hlast] at hmerge
                exact hmerge
            · exact hskip

/-! ### One register changes -/

/-- A header, whose encoding is at offset 4. -/
structure Header (hdr : Bytes) (encoding : UInt8) : Prop where
  length : hdr.length = hllHdrSize
  magic : hdr.take 4 = magic
  encoding : hdr[4]? = some encoding

theorem Header.set_card {hdr : Bytes} {encoding : UInt8} (h : Header hdr encoding) (b : UInt8) :
    Header (hdr.set 8 b) encoding := by
  refine ⟨by rw [List.length_set, h.length], ?_, ?_⟩
  · rw [List.take_set_of_le (by decide), h.magic]
  · rw [List.getElem?_set_ne (by decide), h.encoding]

theorem invalidateCache_eq {hdr : Bytes} {encoding : UInt8} (h : Header hdr encoding)
    (body : Bytes) :
    ∃ b, invalidateCache (hdr ++ body) = some (hdr.set 8 (b ||| cacheFlag) ++ body) := by
  have hlt : 8 < hdr.length := by rw [h.length]; decide
  refine ⟨hdr[8], ?_⟩
  rw [invalidateCache, List.getElem?_append_left hlt, List.getElem?_eq_getElem hlt]
  dsimp only [Option.bind_eq_bind, Option.bind_some]
  rw [List.set_append_left _ _ hlt]

/-- A string in the sparse representation. -/
structure Sparse (s : Bytes) (ops : List Opcode) : Prop where
  split : ∃ hdr, Header hdr hllSparse ∧ s = hdr ++ opcodeBytes ops
  valid : ∀ op ∈ ops, op.Valid
  registers : (opcodeRegisters ops).length = hllRegisters

theorem updated_spec {hdr : Bytes} (hhdr : Header hdr hllSparse) {ops pre₁ pre₂ : List Opcode}
    (hops : ∀ op ∈ ops, op.Valid) (hregs : (opcodeRegisters ops).length = hllRegisters)
    (hsplit : ops = pre₁ ++ pre₂) {prev : Option ℕ}
    (hprev : prev.getD hllHdrSize = hdr.length + (opcodeBytes pre₁).length) {len : ℕ}
    (hlen : len = hdr.length + (opcodeBytes ops).length) (j : Bytes) :
    ∃ s ops', updated (hdr ++ (opcodeBytes ops ++ (0 :: j))) len prev = some (s, 1) ∧
      Sparse s ops' ∧ opcodeRegisters ops' = opcodeRegisters ops ∧ s.length ≤ len := by
  subst hsplit hlen
  have hpre := fun op hop => hops op (List.mem_append_left pre₂ hop)
  have hpost := fun op hop => hops op (List.mem_append_right pre₁ hop)
  obtain ⟨ops', j', hvalid, hsame, hle, hloop⟩ := mergeLoop_spec hpost 5 j
    (a := hdr ++ opcodeBytes pre₁) List.length_append.symm
    (show hdr.length + (opcodeBytes (pre₁ ++ pre₂)).length = _ by
      rw [opcodeBytes_append, List.length_append, List.length_append, Nat.add_assoc])
  obtain ⟨b, hinv⟩ := invalidateCache_eq hhdr (opcodeBytes (pre₁ ++ ops'))
  refine ⟨hdr.set 8 (b ||| cacheFlag) ++ opcodeBytes (pre₁ ++ ops'), pre₁ ++ ops', ?_, ⟨⟨_,
    hhdr.set_card _, rfl⟩, ?_, ?_⟩, ?_, ?_⟩
  · have hmem : hdr ++ (opcodeBytes (pre₁ ++ pre₂) ++ (0 :: j))
        = (hdr ++ opcodeBytes pre₁) ++ (opcodeBytes pre₂ ++ (0 :: j)) := by
      rw [opcodeBytes_append, List.append_assoc, List.append_assoc]
    have htake : ((hdr ++ opcodeBytes pre₁) ++ (opcodeBytes ops' ++ (0 :: j'))).take
        ((hdr ++ opcodeBytes pre₁).length + (opcodeBytes ops').length)
        = hdr ++ opcodeBytes (pre₁ ++ ops') := by
      rw [← List.append_assoc (hdr ++ opcodeBytes pre₁), ← List.length_append, List.take_left,
        opcodeBytes_append, List.append_assoc]
    rw [updated, hprev, hmem, hloop]
    dsimp only [Option.bind_eq_bind, Option.bind_some]
    rw [htake, hinv]
    rfl
  · exact List.forall_mem_append.mpr ⟨hpre, hvalid⟩
  · rw [opcodeRegisters_append, hsame, ← opcodeRegisters_append, hregs]
  · rw [opcodeRegisters_append, hsame, opcodeRegisters_append]
  · simp only [opcodeBytes_append, List.length_append, List.length_set]
    omega

theorem exists_covering {ops : List Opcode} {index : ℕ}
    (hindex : index < (opcodeRegisters ops).length) :
    ∃ pre op post, ops = pre ++ op :: post ∧ (opcodeRegisters pre).length ≤ index ∧
      index < (opcodeRegisters pre).length + op.len := by
  induction ops generalizing index with
  | nil => exact absurd hindex (Nat.not_lt_zero _)
  | cons op ops ih =>
    by_cases hhere : index < op.len
    · exact ⟨[], op, ops, rfl, Nat.zero_le _, by simpa using hhere⟩
    · rw [opcodeRegisters_cons, List.length_append, Opcode.length_registers] at hindex
      obtain ⟨pre, op', post, hsplit, hlow, hhigh⟩ := ih (show index - op.len < _ by omega)
      refine ⟨op :: pre, op', post, by rw [hsplit, List.cons_append], ?_, ?_⟩
      · rw [opcodeRegisters_cons, List.length_append, Opcode.length_registers]
        omega
      · rw [opcodeRegisters_cons, List.length_append, Opcode.length_registers]
        omega

section
variable {pre post : List Opcode} {op : Opcode} {index : ℕ}

theorem getElem?_covering (hlow : (opcodeRegisters pre).length ≤ index)
    (hhigh : index < (opcodeRegisters pre).length + op.len) :
    (opcodeRegisters (pre ++ op :: post))[index]? = some op.value := by
  rw [opcodeRegisters_append, opcodeRegisters_cons, List.getElem?_append_right hlow,
    List.getElem?_append_left (by rw [Opcode.length_registers]; omega), Opcode.registers,
    List.getElem?_replicate, if_pos (by omega)]

theorem set_covering {new : List Opcode} {count : ℕ}
    (hlow : (opcodeRegisters pre).length ≤ index)
    (hhigh : index < (opcodeRegisters pre).length + op.len)
    (hnew : opcodeRegisters new = op.registers.set (index - (opcodeRegisters pre).length) count) :
    opcodeRegisters (pre ++ (new ++ post)) = (opcodeRegisters (pre ++ op :: post)).set index count := by
  rw [opcodeRegisters_append, opcodeRegisters_append, opcodeRegisters_append, opcodeRegisters_cons,
    List.set_append_right _ _ hlow, List.set_append_left _ _ (by
      rw [Opcode.length_registers]; omega), hnew]

end

/-- A register was set, and the string is still sparse and has at most `n` bytes. -/
def SparseSet (ops : List Opcode) (index count n : ℕ) (r : Option (Bytes × ℤ)) : Prop :=
  ∃ s ops', r = some (s, 1) ∧ Sparse s ops' ∧
    opcodeRegisters ops' = (opcodeRegisters ops).set index count ∧ s.length ≤ n

theorem updated_new {hdr : Bytes} (hhdr : Header hdr hllSparse) {pre post new : List Opcode}
    {op : Opcode} (hvalid : ∀ o ∈ pre ++ op :: post, o.Valid)
    (hregs : (opcodeRegisters (pre ++ op :: post)).length = hllRegisters) {index count : ℕ}
    (hlow : (opcodeRegisters pre).length ≤ index)
    (hhigh : index < (opcodeRegisters pre).length + op.len) (hnew : ∀ o ∈ new, o.Valid)
    (hset : opcodeRegisters new = op.registers.set (index - (opcodeRegisters pre).length) count)
    {pre₁ pre₂ : List Opcode} (hsplit : pre = pre₁ ++ pre₂) {prev : Option ℕ}
    (hprev : prev.getD hllHdrSize = hdr.length + (opcodeBytes pre₁).length) {m : Bytes} {len : ℕ}
    (hlen : len = hdr.length + (opcodeBytes (pre ++ (new ++ post))).length) {j : Bytes}
    (hm : m = hdr ++ (opcodeBytes (pre ++ (new ++ post)) ++ (0 :: j))) :
    SparseSet (pre ++ op :: post) index count len (updated m len prev) := by
  have hsame : opcodeRegisters (pre ++ (new ++ post))
      = (opcodeRegisters (pre ++ op :: post)).set index count := set_covering hlow hhigh hset
  obtain ⟨hpre, hop⟩ := List.forall_mem_append.mp hvalid
  obtain ⟨s, ops', hupdated, hsparse, hregs', hle⟩ := updated_spec hhdr
    (List.forall_mem_append.mpr ⟨hpre, List.forall_mem_append.mpr
      ⟨hnew, (List.forall_mem_cons.mp hop).2⟩⟩)
    (by rw [hsame, List.length_set, hregs])
    (show pre ++ (new ++ post) = pre₁ ++ (pre₂ ++ (new ++ post)) by rw [hsplit, List.append_assoc])
    hprev hlen j
  exact ⟨s, ops', hm ▸ hupdated, hsparse, hregs'.trans hsame, hle⟩

theorem SparseSet.mono {ops : List Opcode} {index count n n' : ℕ} {r : Option (Bytes × ℤ)}
    (h : SparseSet ops index count n r) (hle : n ≤ n') : SparseSet ops index count n' r := by
  obtain ⟨s, ops', hr, hsparse, hregs, hlen⟩ := h
  exact ⟨s, ops', hr, hsparse, hregs, hlen.trans hle⟩

theorem setSingle_spec {hdr : Bytes} (hhdr : Header hdr hllSparse) {pre post : List Opcode}
    {op : Opcode} (hvalid : ∀ o ∈ pre ++ op :: post, o.Valid)
    (hregs : (opcodeRegisters (pre ++ op :: post)).length = hllRegisters) (hlen : op.len = 1)
    (hbytes : op.bytes.length = 1) {index count : ℕ} (hcount : 0 < count)
    (hmax : count ≤ valMaxValue) (hlow : (opcodeRegisters pre).length ≤ index)
    (hhigh : index < (opcodeRegisters pre).length + op.len) {pre₁ pre₂ : List Opcode}
    (hsplit : pre = pre₁ ++ pre₂) {l : Located}
    (hp : l.p = hdr.length + (opcodeBytes pre).length)
    (hprev : l.prev.getD hllHdrSize = hdr.length + (opcodeBytes pre₁).length) (g : Bytes) :
    SparseSet (pre ++ op :: post) index count (hdr ++ opcodeBytes (pre ++ op :: post)).length
      (setSingle (hdr ++ opcodeBytes (pre ++ op :: post))
      (hdr ++ (opcodeBytes pre ++ (op.bytes ++ (opcodeBytes post ++ (0 :: g))))) l count) := by
  have hstore : store (hdr ++ (opcodeBytes pre ++ (op.bytes ++ (opcodeBytes post ++ (0 :: g))))) l.p
      (Opcode.val count 1).bytes
      = some (hdr ++ (opcodeBytes (pre ++ ([.val count 1] ++ post)) ++ (0 :: g))) := by
    rw [← List.append_assoc hdr, hp, ← List.length_append, store_append rfl
      (show (Opcode.val count 1).bytes.length = op.bytes.length from hbytes.symm)]
    simp
  rw [setSingle, hstore]
  dsimp only [Option.bind_eq_bind, Option.bind_some]
  refine updated_new hhdr hvalid hregs hlow hhigh (fun o ho => ?_) ?_ hsplit hprev ?_ rfl
  · rw [List.mem_singleton.mp ho]
    exact ⟨⟨hcount, hmax⟩, Nat.one_pos, by decide⟩
  · have hzero : index - (opcodeRegisters pre).length = 0 := by omega
    rw [hzero, Opcode.registers, hlen]
    rfl
  · have hone : (Opcode.val count 1).bytes.length = 1 := rfl
    simp only [opcodeBytes_append, opcodeBytes_cons, opcodeBytes_nil, List.length_append, hbytes,
      hone, List.length_nil]

theorem splitRun_spec (maxBytes : ℕ) {hdr : Bytes} (hhdr : Header hdr hllSparse)
    {pre post : List Opcode} {op : Opcode} (hvalid : ∀ o ∈ pre ++ op :: post, o.Valid)
    (hregs : (opcodeRegisters (pre ++ op :: post)).length = hllRegisters) {index count : ℕ}
    (hcount : 0 < count) (hmax : count ≤ valMaxValue)
    (hlow : (opcodeRegisters pre).length ≤ index)
    (hhigh : index < (opcodeRegisters pre).length + op.len) {pre₁ pre₂ : List Opcode}
    (hsplit : pre = pre₁ ++ pre₂) {prev : Option ℕ}
    (hprev : prev.getD hllHdrSize = hdr.length + (opcodeBytes pre₁).length) {g : Bytes}
    (hg : g.length = 3) :
    let s := hdr ++ opcodeBytes (pre ++ op :: post)
    let r := splitRun maxBytes s
      (hdr ++ (opcodeBytes pre ++ (op.bytes ++ (opcodeBytes post ++ (0 :: g)))))
      ⟨hdr.length + (opcodeBytes pre).length, prev, (opcodeRegisters pre).length, op.len⟩ op
      op.bytes.length index count
    SparseSet (pre ++ op :: post) index count (s.length + 3) r ∨ r = promote s index count := by
  intro s r
  have hop : op.Valid := hvalid op (List.mem_append_right pre List.mem_cons_self)
  obtain ⟨hnew, hset, hsize⟩ := splitOpcode_spec hop hcount hmax hlow hhigh
  set new := splitOpcode op (opcodeRegisters pre).length op.len index count with hnewdef
  have hslen : s.length = hdr.length + (opcodeBytes pre).length + op.bytes.length
      + (opcodeBytes post).length := by
    rw [show s = hdr ++ opcodeBytes (pre ++ op :: post) from rfl, opcodeBytes_append,
      opcodeBytes_cons]
    simp only [List.length_append]
    omega
  obtain ⟨j, hsub⟩ := substitute_eq (hdr ++ opcodeBytes pre) op.bytes (opcodeBytes post)
    (opcodeBytes new) g (hslen.trans (by rw [List.length_append]))
    (by rw [hg]; exact hsize)
  by_cases hpromote : (opcodeBytes new).length > op.bytes.length ∧
      s.length + ((opcodeBytes new).length - op.bytes.length) > maxBytes
  · right
    show splitRun _ _ _ _ _ _ _ _ = _
    rw [splitRun, ← hnewdef, if_pos hpromote]
  · left
    have hr : r = updated (hdr ++ (opcodeBytes (pre ++ (new ++ post)) ++ (0 :: j)))
        (s.length + (opcodeBytes new).length - op.bytes.length) prev := by
      show splitRun _ _ _ _ _ _ _ _ = _
      rw [splitRun, ← hnewdef]
      dsimp only
      rw [if_neg hpromote, ← List.append_assoc hdr, ← List.length_append, hsub]
      dsimp only [Option.bind_eq_bind, Option.bind_some]
      simp only [opcodeBytes_append, List.append_assoc]
    rw [hr]
    refine (updated_new hhdr hvalid hregs hlow hhigh hnew hset hsplit hprev ?_ rfl).mono (by omega)
    simp only [opcodeBytes_append, List.length_append]
    omega

/-- `hllSparseAdd` leaves the string alone if the register is not smaller, and sets the register
otherwise, unless it has to convert the string. -/
theorem hllSparseAdd_spec (junk : ℕ → UInt8) (maxBytes : ℕ) {s : Bytes} {ops : List Opcode}
    (hs : Sparse s ops) {index count old : ℕ} (hcount : 0 < count) (hmax : count ≤ valMaxValue)
    (hold : (opcodeRegisters ops)[index]? = some old) :
    (count ≤ old → hllSparseAdd junk maxBytes s index count = some (s, 0)) ∧
      (old < count →
        SparseSet ops index count (s.length + 3) (hllSparseAdd junk maxBytes s index count) ∨
        hllSparseAdd junk maxBytes s index count = promote s index count) := by
  obtain ⟨⟨hdr, hhdr, rfl⟩, hvalid, hregs⟩ := hs
  obtain ⟨pre, op, post, rfl, hlow, hhigh⟩ :=
    exists_covering (List.getElem?_eq_some_iff.mp hold).1
  obtain ⟨hpre, hrest⟩ := List.forall_mem_append.mp hvalid
  obtain ⟨hop, hpost⟩ := List.forall_mem_cons.mp hrest
  obtain rfl : op.value = old :=
    Option.some_inj.mp ((getElem?_covering hlow hhigh).symm.trans hold)
  have hpos := op.length_bytes_pos
  set s := hdr ++ opcodeBytes (pre ++ op :: post) with hs
  have hm : s ++ [0] = hdr ++ (opcodeBytes pre ++ (op.bytes ++ (opcodeBytes post ++ [0]))) := by
    rw [hs, opcodeBytes_append, opcodeBytes_cons]
    simp only [List.append_assoc]
  have hslen : s.length = hdr.length + (opcodeBytes pre).length + op.bytes.length
      + (opcodeBytes post).length := by
    rw [hs, opcodeBytes_append, opcodeBytes_cons]
    simp only [List.length_append]
    omega
  obtain ⟨prev, pre₁, pre₂, hsplit, hprev, hlocate⟩ := locateLoop_eq hpre hop hdr
    (opcodeBytes post ++ [0]) s.length index (s.length + 1) ⟨hllHdrSize, none, 0, 0⟩
    hhdr.length.symm (by omega) (by rw [Nat.zero_add]; exact hlow)
    (by rw [Nat.zero_add]; exact hhigh) (by omega)
  have hprev' : prev.getD hllHdrSize = hdr.length + (opcodeBytes pre₁).length := by
    rcases hprev with ⟨hnil, hprev⟩ | hprev
    · obtain ⟨rfl, -⟩ := List.append_eq_nil_iff.mp (hsplit.symm.trans hnil)
      rw [hprev, hhdr.length]
      rfl
    · rw [hprev]
      rfl
  obtain ⟨g, hg, hgrown⟩ := realloc_grow junk (s ++ [0]) 3
  have hgrown' : realloc junk (s ++ [0]) (s.length + 4)
      = hdr ++ (opcodeBytes pre ++ (op.bytes ++ (opcodeBytes post ++ (0 :: g)))) := by
    rw [List.length_append] at hgrown
    rw [show s.length + 4 = s.length + [(0 : UInt8)].length + 3 from rfl, hgrown, hm]
    simp only [List.append_assoc, List.singleton_append]
  have hread : readOpcode (hdr ++ (opcodeBytes pre ++ (op.bytes ++ (opcodeBytes post ++ [0]))))
      (hdr.length + (opcodeBytes pre).length) = some (op, op.bytes.length) := by
    rw [← List.append_assoc, ← List.length_append]
    exact readOpcode_bytes hop _ _
  have hsplitRun := splitRun_spec maxBytes hhdr hvalid hregs hcount hmax hlow hhigh hsplit hprev' hg
  have hsingle := fun hlen hbytes => setSingle_spec hhdr hvalid hregs hlen hbytes hcount hmax hlow
    hhigh hsplit (l := ⟨_, prev, (opcodeRegisters pre).length, op.len⟩) rfl hprev' g
  rw [hllSparseAdd, if_neg (Nat.not_lt.mpr hmax)]
  dsimp only [Option.bind_eq_bind]
  rw [hm, hlocate]
  dsimp only [Option.bind_some]
  rw [if_neg hop.len_pos.ne', hread, ← hm, hgrown', Nat.zero_add]
  dsimp only [Option.bind_some]
  cases op with
  | zero n =>
    dsimp only
    refine ⟨fun hle => absurd hle (Nat.not_le.mpr hcount), fun _ => ?_⟩
    split
    · rename_i hone
      exact .inl ((hsingle hone rfl).mono (Nat.le_add_right _ 3))
    · exact hsplitRun
  | xzero n => exact ⟨fun hle => absurd hle (Nat.not_le.mpr hcount), fun _ => hsplitRun⟩
  | val v n =>
    dsimp only [Opcode.value]
    refine ⟨fun hle => if_pos hle, fun hlt => ?_⟩
    rw [if_neg (Nat.not_le.mpr hlt)]
    split
    · rename_i hone
      exact .inl ((hsingle hone rfl).mono (Nat.le_add_right _ 3))
    · exact hsplitRun

end Hyperloglog
